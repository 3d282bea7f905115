import ClientGen.Api.Endpoint
import ClientGen.Proofs.Naming.Arguments
import ClientGen.Proofs.Naming.LiteralSegments
import Mathlib.Data.List.Forall2

/-!
# Names of unnamed operations

The name that is made of a method and a path is in snake case, whatever the path holds. It
depends on the literal segments of the path and on whether it has placeholders, and on no more
of it (`operationName_congr`). So it is the same for paths that differ in the names of their
placeholders, whose segments are alike one by one, and for paths that differ in a prefix,
whose segments are the same after it.

Main results:

* `exists_operationName` — a name is a verb and what follows in snake case.
* `operationName_renamed`, `operationName_prefixed` — what a name does not depend on.
* `operationName_words` — the name of a path that is made of words.
-/

namespace ClientGen.Naming

open ClientGen.Api ClientGen.Text

-- ---------------------------------------------------------------------------
-- Words
-- ---------------------------------------------------------------------------

theorem IsSnake.dropEnd {word : String} (h : IsSnake word) (n : Nat) : IsSnake (dropEnd word n) := by
  intro c hc
  rw [Naming.dropEnd, String.toList_ofList] at hc
  exact h c (List.mem_of_mem_take hc)

theorem IsSnake.of_lookup {table : List (String × String)} (hTable : ∀ entry ∈ table, IsSnake entry.2)
    {word found : String} (h : table.lookup word = some found) : IsSnake found := by
  obtain ⟨before, after, rfl, -⟩ := List.lookup_eq_some_iff.mp h
  exact hTable (word, found) (by simp)

theorem isSnake_plural {word : String} (h : IsSnake word) : IsSnake (plural word) := by
  unfold plural
  split
  · rename_i hFound
    exact .of_lookup (by decide) hFound
  · refine .ite h (.ite ((h.dropEnd 1).append (by decide)) (.ite ?_ ?_ _) _) _
    · exact h.append (by decide)
    · exact h.append (by decide)

theorem isSnake_singular {word : String} (h : IsSnake word) : IsSnake (singular word) := by
  unfold singular
  split
  · rename_i hFound
    exact .of_lookup (by decide) hFound
  · exact .ite h (.ite ((h.dropEnd 3).append (by decide)) (.ite (h.dropEnd 2) (.ite (h.dropEnd 1) h _) _) _) _

theorem isSnake_segmentWord (segment : String) : IsSnake (segmentWord segment) := by
  unfold segmentWord
  intro c hc
  rw [String.toList_ofList] at hc
  rcases mem_replaceRuns (mem_trim hc) with rfl | ⟨hKept, -⟩
  · decide
  · exact (List.mem_filter.mp hKept).2

theorem isSnake_intercalate {words : List String} (h : ∀ word ∈ words, IsSnake word) :
    IsSnake ("_".intercalate words) := by
  induction words with
  | nil =>
    rw [String.intercalate_nil]
    decide
  | cons word words ih =>
    obtain ⟨hWord, hWords⟩ := List.forall_mem_cons.mp h
    cases words with
    | nil => rwa [String.intercalate_singleton]
    | cons next words =>
      rw [String.intercalate_cons_cons]
      exact (hWord.append (by decide)).append (ih hWords)

/-- A word in snake case is a segment as it is. -/
theorem segmentWord_of_isSnakeWord {word : String} (h : IsSnakeWord word.toList) :
    segmentWord word = word := by
  have hMarked : word.toList.map (fun c => if c == '.' || c == '-' then '_' else c) = word.toList := by
    refine (List.map_congr_left fun c hc => if_neg ?_).trans (List.map_id word.toList)
    rw [Bool.or_eq_true, beq_iff_eq, beq_iff_eq]
    rintro (rfl | rfl)
    · exact absurd (h.chars _ hc) (by decide)
    · exact absurd (h.chars _ hc) (by decide)
  unfold segmentWord
  dsimp only
  rw [snakeChars_eq_self h.chars, hMarked, List.filter_eq_self.mpr h.chars,
    replaceRuns_eq_self (fun c _ hMark => beq_iff_eq.mp hMark) h.parted,
    trim_mark_eq_self h.first h.last, String.ofList_toList]

-- ---------------------------------------------------------------------------
-- Placeholders
-- ---------------------------------------------------------------------------

/-- No more of a path is in the name of an operation than its literal segments and whether it has
placeholders. -/
theorem operationName_congr {path path' : String}
    (hPlaceholder : hasPlaceholderSegment path = hasPlaceholderSegment path')
    (hLiteral : literalSegments path = literalSegments path') (method : String) :
    operationName method path = operationName method path' := by
  unfold operationName
  rw [hPlaceholder, hLiteral]

/-- Segments that are the same or both placeholders. -/
def SegmentAlike (s t : List Char) : Prop :=
  s = t ∨ isPlaceholderSegment s = true ∧ isPlaceholderSegment t = true

section Alike

variable {segments segments' : List (List Char)} (h : List.Forall₂ SegmentAlike segments segments')
include h

/-- A class without placeholders does not tell such segments apart. -/
theorem dropFirst_alike {q : List Char → Bool} (hq : ∀ s, isPlaceholderSegment s = true → q s = false) :
    List.Forall₂ SegmentAlike (dropFirst q segments) (dropFirst q segments') := by
  cases h with
  | nil => exact .nil
  | @cons s t rest rest' hFirst hRest =>
    cases hRest with
    | nil => exact .cons hFirst .nil
    | cons hNext hMore =>
      have hSame : q s = q t := by
        rcases hFirst with rfl | ⟨hs, ht⟩
        · rfl
        · rw [hq s hs, hq t ht]
      rw [dropFirst, dropFirst, hSame]
      split
      · exact .cons hNext hMore
      · exact .cons hFirst (.cons hNext hMore)

theorem bareSegments_alike :
    List.Forall₂ SegmentAlike (bareSegments segments) (bareSegments segments') := by
  have hBrace : ∀ s, isPlaceholderSegment s = true → ∃ rest, s = '\x7b' :: rest := by
    intro s hs
    obtain ⟨rest, rfl⟩ := List.isPrefixOf_iff_prefix.mp hs
    exact ⟨rest, rfl⟩
  refine dropFirst_alike (dropFirst_alike (dropFirst_alike h ?_) ?_) ?_
  all_goals
    intro s hs
    obtain ⟨rest, rfl⟩ := hBrace s hs
    rfl

theorem filter_isLiteral_alike : segments.filter isLiteral = segments'.filter isLiteral := by
  induction h with
  | nil => rfl
  | cons hFirst _ ih =>
    rcases hFirst with rfl | ⟨hs, ht⟩
    · rw [List.filter_cons, List.filter_cons, ih]
    · rw [List.filter_cons_of_neg (by simp [isLiteral, hs]),
        List.filter_cons_of_neg (by simp [isLiteral, ht]), ih]

theorem any_isPlaceholderSegment_alike :
    segments.any isPlaceholderSegment = segments'.any isPlaceholderSegment := by
  induction h with
  | nil => rfl
  | cons hFirst _ ih =>
    rw [List.any_cons, List.any_cons, ih]
    rcases hFirst with rfl | ⟨hs, ht⟩
    · rfl
    · rw [hs, ht]

end Alike

/-- A path of these segments. -/
def pathOf (segments : List String) : String := "/".intercalate segments

/-- A segment that is a placeholder as a whole. -/
def placeholderSegment (name : String) : String := "\x7b" ++ name ++ "\x7d"

/-- The segments differ in the name of a placeholder, if at all. -/
inductive SegmentRenamed : String → String → Prop
  | same (segment : String) : SegmentRenamed segment segment
  | renamed {name name' : String} : '/' ∉ name.toList → '/' ∉ name'.toList →
      SegmentRenamed (placeholderSegment name) (placeholderSegment name')

theorem splitOn_placeholderSegment {name : String} (h : '/' ∉ name.toList) :
    splitOn '/' (placeholderSegment name).toList = [(placeholderSegment name).toList] := by
  refine splitOn_of_not_mem ?_
  simpa [placeholderSegment] using h

theorem isPlaceholderSegment_placeholderSegment (name : String) :
    isPlaceholderSegment (placeholderSegment name).toList = true := by
  simp [placeholderSegment, isPlaceholderSegment]

theorem SegmentRenamed.alike {s t : String} (h : SegmentRenamed s t) :
    List.Forall₂ SegmentAlike (splitOn '/' s.toList) (splitOn '/' t.toList) := by
  cases h with
  | same => exact List.forall₂_same.mpr fun _ _ => Or.inl rfl
  | @renamed name name' hName hName' =>
    rw [splitOn_placeholderSegment hName, splitOn_placeholderSegment hName']
    exact .cons (Or.inr ⟨isPlaceholderSegment_placeholderSegment name,
      isPlaceholderSegment_placeholderSegment name'⟩) .nil

theorem splitOn_pathOf_cons (segment next : String) (rest : List String) :
    splitOn '/' (pathOf (segment :: next :: rest)).toList =
      splitOn '/' segment.toList ++ splitOn '/' (pathOf (next :: rest)).toList := by
  have hPath : (pathOf (segment :: next :: rest)).toList =
      segment.toList ++ '/' :: (pathOf (next :: rest)).toList := by
    rw [pathOf, String.intercalate_cons_cons, String.toList_append, String.toList_append,
      List.append_assoc]
    rfl
  rw [hPath, splitOn_append_cons]

theorem splitOn_renamed {segments segments' : List String}
    (h : List.Forall₂ SegmentRenamed segments segments') :
    List.Forall₂ SegmentAlike (splitOn '/' (pathOf segments).toList)
      (splitOn '/' (pathOf segments').toList) := by
  induction h with
  | nil => exact .cons (Or.inl rfl) .nil
  | cons hFirst hRest ih =>
    cases hRest with
    | nil =>
      rw [pathOf, pathOf, String.intercalate_singleton, String.intercalate_singleton]
      exact hFirst.alike
    | cons _ _ =>
      rw [splitOn_pathOf_cons, splitOn_pathOf_cons]
      exact List.rel_append hFirst.alike ih

/-- **Placeholders.** Their names are not in the name of an operation. -/
theorem operationName_renamed {segments segments' : List String}
    (h : List.Forall₂ SegmentRenamed segments segments') (method : String) :
    operationName method (pathOf segments) = operationName method (pathOf segments') := by
  have hAlike := splitOn_renamed h
  refine operationName_congr (any_isPlaceholderSegment_alike hAlike) ?_ method
  rw [literalSegments_eq, literalSegments_eq, filter_isLiteral_alike (bareSegments_alike hAlike)]

-- ---------------------------------------------------------------------------
-- Prefixes
-- ---------------------------------------------------------------------------

/-- A path that starts with a slash, but not with one of the prefixes that are not in a name. -/
structure IsUnprefixed (path : String) : Prop where
  slash : ['/'] <+: path.toList
  noApi : ¬ "/api/".toList <+: path.toList
  noVersion : ∀ version, isVersion version = true → ¬ '/' :: version ++ ['/'] <+: path.toList

/-- Nothing is dropped from the segments of such a path but the empty one before the slash. -/
theorem IsUnprefixed.segments {path : String} (h : IsUnprefixed path) :
    ∃ rest, path.toList = '/' :: rest ∧ dropFirst (· == "api".toList) (splitOn '/' rest) = splitOn '/' rest ∧
      dropFirst isVersion (splitOn '/' rest) = splitOn '/' rest := by
  obtain ⟨rest, hRest⟩ := h.slash
  rw [List.singleton_append] at hRest
  refine ⟨rest, hRest.symm, ?_, ?_⟩
  · have hNoSlash : '/' ∉ "api".toList := by decide
    rw [← splitOn_dropLead hNoSlash, dropLead, if_neg]
    intro hPrefix
    refine h.noApi ?_
    rw [← hRest]
    exact (List.prefix_cons_inj '/').mpr (List.isPrefixOf_iff_prefix.mp hPrefix)
  · rw [← splitOn_dropVersion]
    rcases dropVersion_cases rest with ⟨version, hVersion, hAll⟩ | hSelf
    · refine absurd ?_ (h.noVersion version hVersion)
      rw [← hRest, hAll]
      exact ⟨dropVersion rest, by simp⟩
    · rw [hSelf]

section Prefixed

variable {segments : List (List Char)} (hSome : segments ≠ [])
  (hVersion : dropFirst isVersion segments = segments)
include hSome hVersion

theorem bareSegments_unprefixed (hApi : dropFirst (· == "api".toList) segments = segments) :
    bareSegments ([] :: segments) = segments := by
  rw [bareSegments, dropFirst_of_pos rfl hSome, hApi, hVersion]

theorem bareSegments_prefixed {version : List Char} (hIs : isVersion version = true) :
    ∀ leads ∈ [["api".toList], [version], ["api".toList, version]],
      bareSegments ([] :: (leads ++ segments)) = segments := by
  have hOther : (version == "api".toList) = false := by
    rw [beq_eq_false_iff_ne]
    rintro rfl
    exact absurd hIs (by decide)
  have hDrop : ∀ rest, rest ≠ [] → dropFirst (· == "api".toList) ("api".toList :: rest) = rest :=
    fun _ hMore => dropFirst_of_pos (beq_self_eq_true "api".toList) hMore
  have hKeep : dropFirst (· == "api".toList) (version :: segments) = version :: segments :=
    dropFirst_of_neg hOther
  simp only [List.forall_mem_cons, List.cons_append, List.nil_append]
  refine ⟨?_, ?_, ?_, nofun⟩
  · rw [bareSegments, dropFirst_of_pos rfl (List.cons_ne_nil _ _), hDrop _ hSome, hVersion]
  · rw [bareSegments, dropFirst_of_pos rfl (List.cons_ne_nil _ _), hKeep, dropFirst_of_pos hIs hSome]
  · rw [bareSegments, dropFirst_of_pos rfl (List.cons_ne_nil _ _), hDrop _ (List.cons_ne_nil _ _),
      dropFirst_of_pos hIs hSome]

end Prefixed

/-- A prefix puts its segments after the empty one before the slash. -/
theorem splitOn_prefixed {path version : String} {rest : List Char} (hPath : path.toList = '/' :: rest)
    (hVersion : isVersion version.toList = true) :
    ∀ lead ∈ ["/api", "/" ++ version, "/api/" ++ version],
      ∃ leads ∈ [["api".toList], [version.toList], ["api".toList, version.toList]],
        splitOn '/' (lead ++ path).toList = [] :: (leads ++ splitOn '/' rest) := by
  have hNoSlash : '/' ∉ version.toList := slash_not_mem_of_isVersion hVersion
  simp only [List.forall_mem_cons, String.toList_append, hPath]
  refine ⟨⟨["api".toList], by simp, rfl⟩, ⟨[version.toList], by simp, ?_⟩,
    ⟨["api".toList, version.toList], by simp, ?_⟩, nofun⟩
  · show [] :: splitOn '/' (version.toList ++ '/' :: rest) = _
    rw [splitOn_append_of_not_mem hNoSlash]
    rfl
  · show [] :: "api".toList :: splitOn '/' (version.toList ++ '/' :: rest) = _
    rw [splitOn_append_of_not_mem hNoSlash]
    rfl

/-- **Prefixes.** They are not in the name of an operation. -/
theorem operationName_prefixed {path version : String} (h : IsUnprefixed path)
    (hVersion : isVersion version.toList = true) (method : String) :
    ∀ lead ∈ ["/api", "/" ++ version, "/api/" ++ version],
      operationName method (lead ++ path) = operationName method path := by
  intro lead hLead
  obtain ⟨rest, hPath, hNoApi, hNoVersion⟩ := h.segments
  obtain ⟨leads, hLeads, hSplit⟩ := splitOn_prefixed hPath hVersion lead hLead
  have hPlain : splitOn '/' path.toList = [] :: splitOn '/' rest := by
    rw [hPath]
    rfl
  refine operationName_congr ?_ ?_ method
  · have hNone : leads.any isPlaceholderSegment = false := by
      obtain ⟨digits, hDigits, -⟩ := isVersion_iff.mp hVersion
      rw [hDigits] at hLeads
      simp only [List.mem_cons, List.not_mem_nil, or_false] at hLeads
      rcases hLeads with rfl | rfl | rfl <;> rfl
    rw [hasPlaceholderSegment, hasPlaceholderSegment, hSplit, hPlain, List.any_cons, List.any_cons,
      List.any_append, hNone, Bool.false_or]
  · have hBare := bareSegments_prefixed (splitOn_ne_nil _ rest) hNoVersion hVersion leads hLeads
    rw [literalSegments_eq, literalSegments_eq, hSplit, hPlain, hBare,
      bareSegments_unprefixed (splitOn_ne_nil _ rest) hNoVersion hNoApi]

-- ---------------------------------------------------------------------------
-- Names
-- ---------------------------------------------------------------------------

/-- A name is a verb and what follows in snake case. -/
theorem exists_operationName (method path : String) : ∃ noun, IsSnake noun ∧
    operationName method path =
      methodVerb (.ofList (lower method.toList)) (hasPlaceholderSegment path) ++ "_" ++ noun := by
  have hWords : ∀ word ∈ ((literalSegments path).map segmentWord).filter (· != ""), IsSnake word := by
    intro word hWord
    obtain ⟨segment, -, rfl⟩ := List.mem_map.mp (List.mem_filter.mp hWord).1
    exact isSnake_segmentWord segment
  unfold operationName
  dsimp only
  split
  · exact ⟨"root", by decide, by rw [String.append_assoc]; rfl⟩
  · rename_i noun hOne
    have hNoun : IsSnake noun := hWords noun (hOne ▸ List.mem_singleton_self noun)
    exact ⟨_, .ite (isSnake_plural hNoun) (.ite (isSnake_singular hNoun) hNoun _) _, rfl⟩
  · exact ⟨_, isSnake_intercalate hWords, rfl⟩

section Words

variable {words : List String} (hWords : ∀ word ∈ words, IsSnakeWord word.toList)
include hWords

theorem splitOn_words :
    splitOn '/' (pathOf ("" :: words)).toList = [] :: words.map String.toList := by
  rw [splitOn_eq, pathOf, String.toList_intercalate]
  show List.splitOn '/' (['/'].intercalate ([] :: words.map String.toList)) = _
  refine List.splitOn_intercalate '/' ?_ (List.cons_ne_nil _ _)
  refine List.forall_mem_cons.mpr ⟨List.not_mem_nil, ?_⟩
  intro segment hSegment hSlash
  obtain ⟨word, hWord, rfl⟩ := List.mem_map.mp hSegment
  exact absurd ((hWords word hWord).chars '/' hSlash) (by decide)

theorem isLiteral_word : ∀ segment ∈ words.map String.toList,
    isPlaceholderSegment segment = false ∧ isLiteral segment = true := by
  intro segment hSegment
  obtain ⟨word, hWord, rfl⟩ := List.mem_map.mp hSegment
  have hSnake := hWords word hWord
  cases hChars : word.toList with
  | nil => exact absurd hChars hSnake.nonempty
  | cons c rest =>
    have hBrace : c ≠ '\x7b' := by
      rintro rfl
      exact absurd (hSnake.chars _ (hChars ▸ List.mem_cons_self)) (by decide)
    simp [isLiteral, isPlaceholderSegment, List.isPrefixOf, hBrace.symm]

/-- Words in snake case are the name of their path, if they are several. -/
theorem operationName_words (hMany : 2 ≤ words.length) (hBare : IsUnprefixed (pathOf ("" :: words)))
    (method : String) : operationName method (pathOf ("" :: words)) =
      methodVerb (.ofList (lower method.toList)) false ++ "_" ++ "_".intercalate words := by
  obtain ⟨rest, hPath, hNoApi, hNoVersion⟩ := hBare.segments
  have hSplit : splitOn '/' (pathOf ("" :: words)).toList = [] :: splitOn '/' rest := by
    rw [hPath]
    rfl
  have hRest : splitOn '/' rest = words.map String.toList :=
    (List.cons.inj (hSplit.symm.trans (splitOn_words hWords))).2
  have hSelf : ∀ word ∈ words, segmentWord (.ofList word.toList) = word := by
    intro word hWord
    rw [String.ofList_toList, segmentWord_of_isSnakeWord (hWords word hWord)]
  have hLiteral : ((literalSegments (pathOf ("" :: words))).map segmentWord).filter (· != "") = words := by
    rw [literalSegments_eq, hSplit, bareSegments_unprefixed (splitOn_ne_nil _ rest) hNoVersion hNoApi, hRest,
      List.filter_eq_self.mpr fun segment h => (isLiteral_word hWords segment h).2, List.map_map,
      List.map_map]
    have hAll : words.map (segmentWord ∘ String.ofList ∘ String.toList) = words :=
      (List.map_congr_left hSelf).trans (List.map_id words)
    rw [Function.comp_assoc, hAll]
    refine List.filter_eq_self.mpr fun word hWord => ?_
    rw [bne_iff_ne]
    rintro rfl
    exact (hWords "" hWord).nonempty rfl
  have hPlaceholder : hasPlaceholderSegment (pathOf ("" :: words)) = false := by
    rw [hasPlaceholderSegment, hSplit, hRest, List.any_cons, Bool.or_eq_false_iff, List.any_eq_false]
    exact ⟨rfl, fun segment h => Bool.not_eq_true _ ▸ (isLiteral_word hWords segment h).1⟩
  unfold operationName
  dsimp only
  rw [hLiteral, hPlaceholder]
  match words, hMany with
  | _ :: _ :: _, _ => rfl

end Words

/-- The verbs that names of operations start with. -/
def operationVerbs : List String := ["list", "get", "create", "update", "delete", "head", "options", "trace"]

/-- Every operation of a document has one. -/
theorem methodVerb_mem {method : String} (h : method ∈ Endpoint.operationMethods) (hasPlaceholder : Bool) :
    methodVerb method hasPlaceholder ∈ operationVerbs := by
  have hAll : ∀ method ∈ Endpoint.operationMethods, ∀ b, methodVerb method b ∈ operationVerbs := by decide
  exact hAll method h hasPlaceholder

/-- Operations of a document give their methods in small letters. -/
theorem lower_method {method : String} (h : method ∈ Endpoint.operationMethods) :
    String.ofList (lower method.toList) = method := by
  have hAll : ∀ method ∈ Endpoint.operationMethods, String.ofList (lower method.toList) = method := by
    decide +kernel
  exact hAll method h

/--
**Names of unnamed operations.** For every method that an operation can have: the name is a verb of this
method, an underscore, and what follows is in snake case. Another name without slashes for a placeholder
that is a whole segment does not change it. Nor does a prefix, that is `api`, a version or both, before a
path that has none. A path of several words in snake case is named by them.
-/
theorem operationName_legal {method : String} (hMethod : method ∈ Endpoint.operationMethods) :
    (∀ path, methodVerb method (hasPlaceholderSegment path) ∈ operationVerbs ∧
      ∃ noun, IsSnake noun ∧
        operationName method path = methodVerb method (hasPlaceholderSegment path) ++ "_" ++ noun) ∧
    (∀ segments segments', List.Forall₂ SegmentRenamed segments segments' →
      operationName method (pathOf segments) = operationName method (pathOf segments')) ∧
    (∀ path, IsUnprefixed path → ∀ version, isVersion version.toList = true →
      ∀ lead ∈ ["/api", "/" ++ version, "/api/" ++ version],
        operationName method (lead ++ path) = operationName method path) ∧
    ∀ words, 2 ≤ words.length → (∀ word ∈ words, IsSnakeWord word.toList) →
      IsUnprefixed (pathOf ("" :: words)) →
        operationName method (pathOf ("" :: words)) =
          methodVerb method false ++ "_" ++ "_".intercalate words := by
  refine ⟨fun path => ⟨methodVerb_mem hMethod _, ?_⟩, fun _ _ h => operationName_renamed h method,
    fun _ h _ hVersion => operationName_prefixed h hVersion method, fun words hMany hWords hBare => ?_⟩
  · have hName := exists_operationName method path
    rwa [lower_method hMethod] at hName
  · have hName := operationName_words hWords hMany hBare method
    rwa [lower_method hMethod] at hName

/-- A path may start like a version. -/
theorem isUnprefixed_vendors {path : String} (h : "/ve".toList <+: path.toList) : IsUnprefixed path := by
  obtain ⟨rest, hPath⟩ := h
  have hChars : path.toList = '/' :: 'v' :: 'e' :: rest := hPath.symm
  refine ⟨⟨_, hChars.symm⟩, ?_, ?_⟩
  · rintro ⟨after, hAll⟩
    rw [hChars] at hAll
    cases hAll
  · rintro version hVersion ⟨after, hAll⟩
    obtain ⟨digits, rfl, hSome, hDigits⟩ := isVersion_iff.mp hVersion
    rw [hChars] at hAll
    cases digits with
    | nil => exact hSome rfl
    | cons d digits =>
      obtain rfl : d = 'e' := by
        simp only [List.cons_append, List.cons.injEq] at hAll
        exact hAll.2.2.1
      exact absurd (hDigits 'e' List.mem_cons_self) (by decide)

/-- Such a path, with another name for its placeholder, behind a prefix, and without its placeholder. -/
theorem operationName_vendorKeys :
    operationName "get" "/vendors/\x7bid\x7d/API-Keys" = "get_vendors_api_keys" ∧
    operationName "get" "/vendors/\x7bvendor.id\x7d/API-Keys" = "get_vendors_api_keys" ∧
    operationName "get" "/api/v1/vendors/\x7bid\x7d/API-Keys" = "get_vendors_api_keys" ∧
    operationName "get" "/vendors/api_keys" = "list_vendors_api_keys" := by
  have hMethod : "get" ∈ Endpoint.operationMethods := by decide
  obtain ⟨-, hRenamed, hPrefixed, hNamed⟩ := operationName_legal hMethod
  have hPlain : operationName "get" "/vendors/\x7bid\x7d/API-Keys" = "get_vendors_api_keys" := by
    decide +kernel
  have hSegments : List.Forall₂ SegmentRenamed ["", "vendors", placeholderSegment "vendor.id", "API-Keys"]
      ["", "vendors", placeholderSegment "id", "API-Keys"] :=
    .cons (.same _) (.cons (.same _) (.cons (.renamed (by decide) (by decide)) (.cons (.same _) .nil)))
  have hWords : ∀ word ∈ ["vendors", "api_keys"], IsSnakeWord word.toList := by
    simp only [List.forall_mem_cons]
    exact ⟨by decide +kernel, by decide +kernel, nofun⟩
  refine ⟨hPlain, ?_, ?_, ?_⟩
  · have hName := hRenamed _ _ hSegments
    rw [show pathOf _ = "/vendors/\x7bvendor.id\x7d/API-Keys" by decide +kernel,
      show pathOf _ = "/vendors/\x7bid\x7d/API-Keys" by decide +kernel] at hName
    rw [hName, hPlain]
  · have hName := hPrefixed "/vendors/\x7bid\x7d/API-Keys" (isUnprefixed_vendors (by decide)) "v1"
      (by decide) "/api/v1" (by decide)
    rw [show "/api/v1" ++ _ = "/api/v1/vendors/\x7bid\x7d/API-Keys" by decide +kernel] at hName
    rw [hName, hPlain]
  · have hName := hNamed _ (by decide) hWords (isUnprefixed_vendors (by decide))
    rw [show pathOf _ = "/vendors/api_keys" by decide +kernel] at hName
    rw [hName]
    decide +kernel

end ClientGen.Naming
