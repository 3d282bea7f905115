import ClientGen.Proofs.Path.Template
import Mathlib.Data.List.Basic
import Mathlib.Data.List.TakeWhile

/-!
# Two readings of the placeholders of a path

The placeholders of a path are read twice. To know which parameters an operation needs, the
whole path is searched for names without braces (`placeholders`); to build its URL, each segment
is cut at its braces (`pieces`), and what stands between them is looked up. The readings agree on
placeholders that are written properly. This module compares them on all paths: what is looked
up holds a name that is found after its last opening brace, if anything is left there, and a
name is found beyond these only if it goes beyond its segment.

Main results:

* `placeholders_append_slash` — the search of a path, segment by segment.
* `placeholders_eq_names` — the search of a segment and its pieces.
* `placeholders_eq_lookedUp` — both readings of a path.
* `readings_agree_iff` — where they are the same.
-/

namespace ClientGen.Path

open ClientGen.Text

-- ---------------------------------------------------------------------------
-- The search
-- ---------------------------------------------------------------------------

/-- The name that is found behind an opening brace. -/
def nameAt? (rest : List Char) : Option String :=
  if !(rest.takeWhile isNameChar).isEmpty && (rest.dropWhile isNameChar).head? == some closeBrace then
    some (.ofList (rest.takeWhile isNameChar))
  else none

/-- The characters are no braces. -/
def Plain (cs : List Char) : Prop := ∀ c ∈ cs, isNameChar c = true

theorem placeholders_open (rest : List Char) :
    placeholders (openBrace :: rest) = (nameAt? rest).toList ++ placeholders rest := by
  rw [placeholders, nameAt?, beq_self_eq_true, Bool.true_and]
  split <;> rfl

theorem placeholders_of_ne {c : Char} (h : c ≠ openBrace) (rest : List Char) :
    placeholders (c :: rest) = placeholders rest := by
  rw [placeholders, beq_eq_false_iff_ne.mpr h]
  rfl

theorem placeholders_of_forall_ne {cs : List Char} (h : ∀ c ∈ cs, c ≠ openBrace) (rest : List Char) :
    placeholders (cs ++ rest) = placeholders rest := by
  induction cs with
  | nil => rfl
  | cons c cs ih =>
    obtain ⟨hHead, hTail⟩ := List.forall_mem_cons.mp h
    rw [List.cons_append, placeholders_of_ne hHead, ih hTail]

/-- Either there is no brace, or there is a first one. -/
theorem plain_or_brace (cs : List Char) :
    Plain cs ∨ ∃ plain b rest, cs = plain ++ b :: rest ∧ Plain plain ∧ isNameChar b = false := by
  have hWhole := List.takeWhile_append_dropWhile (p := isNameChar) (l := cs)
  have hPlain : Plain (cs.takeWhile isNameChar) := fun c hc => List.mem_takeWhile_imp hc
  cases hDrop : cs.dropWhile isNameChar with
  | nil =>
    rw [hDrop, List.append_nil] at hWhole
    exact Or.inl (hWhole ▸ hPlain)
  | cons b rest =>
    rw [hDrop] at hWhole
    have hBrace : isNameChar b = false := by
      have hHead := List.head?_dropWhile_not isNameChar cs
      rw [hDrop] at hHead
      simpa using hHead
    exact Or.inr ⟨_, b, rest, hWhole.symm, hPlain, hBrace⟩

theorem nameAt?_of_plain {cs : List Char} (h : Plain cs) : nameAt? cs = none := by
  have hDrop : cs.dropWhile isNameChar = [] := List.dropWhile_eq_nil_iff.mpr h
  rw [nameAt?, hDrop]
  simp

/-- A name ends at the first brace, which has to be a closing one. -/
theorem nameAt?_of_brace {plain : List Char} {b : Char} (hPlain : Plain plain)
    (hBrace : isNameChar b = false) (rest : List Char) :
    nameAt? (plain ++ b :: rest) = if plain ≠ [] ∧ b = closeBrace then some (.ofList plain) else none := by
  have hBoundary : ¬ isNameChar b = true := by rw [hBrace]; exact Bool.false_ne_true
  rw [nameAt?, List.takeWhile_append_of_pos hPlain, List.takeWhile_cons_of_neg hBoundary,
    List.dropWhile_append_of_pos hPlain, List.dropWhile_cons_of_neg hBoundary, List.append_nil]
  simp

/-- Without a closing brace there is no name. -/
theorem nameAt?_of_not_mem {cs : List Char} (h : closeBrace ∉ cs) : nameAt? cs = none := by
  rcases plain_or_brace cs with hPlain | ⟨plain, b, rest, rfl, hPlain, hBrace⟩
  · exact nameAt?_of_plain hPlain
  · rw [nameAt?_of_brace hPlain hBrace]
    exact if_neg fun hBoth => h (by rw [hBoth.2]; simp)

/-- A name is what is read up to the first brace, if this is not empty. -/
theorem nameAt?_some {cs : List Char} {name : String} (h : nameAt? cs = some name) :
    name ≠ "" ∧ name.toList = cs.takeWhile isNameChar := by
  unfold nameAt? at h
  split at h
  · rename_i hFound
    cases h
    rw [Bool.and_eq_true] at hFound
    refine ⟨?_, String.toList_ofList⟩
    intro hEmpty
    have hNil : cs.takeWhile isNameChar = [] := by simpa using congrArg String.toList hEmpty
    simp [hNil] at hFound
  · cases h

/-- Every name that is found is a text without braces, and a part of what is searched. -/
theorem mem_placeholders {cs : List Char} {name : String} (h : name ∈ placeholders cs) :
    name ≠ "" ∧ Plain name.toList ∧ name.toList <:+: cs := by
  induction cs with
  | nil => cases h
  | cons c rest ih =>
    have hLater : name ∈ placeholders rest →
        name ≠ "" ∧ Plain name.toList ∧ name.toList <:+: c :: rest :=
      fun hMem => ⟨(ih hMem).1, (ih hMem).2.1, (ih hMem).2.2.trans (List.suffix_cons c rest).isInfix⟩
    by_cases hOpen : c = openBrace
    · subst hOpen
      rw [placeholders_open] at h
      rcases List.mem_append.mp h with hHere | hMem
      · obtain ⟨hSome, hText⟩ := nameAt?_some (Option.mem_toList.mp hHere)
        rw [hText]
        exact ⟨hSome, fun c hc => List.mem_takeWhile_imp hc,
          (List.takeWhile_prefix _).isInfix.trans (List.suffix_cons _ rest).isInfix⟩
      · exact hLater hMem
    · rw [placeholders_of_ne hOpen] at h
      exact hLater h

-- ---------------------------------------------------------------------------
-- Segment by segment
-- ---------------------------------------------------------------------------

/-- The name stays within its segment. -/
def withinSegment (name : String) : Bool := !name.toList.contains '/'

theorem withinSegment_iff {name : String} : withinSegment name = true ↔ '/' ∉ name.toList := by
  simp [withinSegment]

/-- Up to a slash, names are found without regard to what comes after it. -/
theorem nameAt?_append_slash (cs rest : List Char) :
    (nameAt? (cs ++ '/' :: rest)).toList.filter withinSegment = (nameAt? cs).toList.filter withinSegment := by
  rcases plain_or_brace cs with hPlain | ⟨plain, b, after, rfl, hPlain, hBrace⟩
  · rw [nameAt?_of_plain hPlain]
    cases hName : nameAt? (cs ++ '/' :: rest) with
    | none => rfl
    | some name =>
      -- without a brace before it, the slash is a part of the name
      have hMem : '/' ∈ name.toList := by
        rw [(nameAt?_some hName).2, List.takeWhile_append_of_pos hPlain, List.takeWhile_cons_of_pos (by decide)]
        exact List.mem_append_right _ List.mem_cons_self
      simpa [withinSegment] using hMem
  · rw [List.append_assoc, List.cons_append, nameAt?_of_brace hPlain hBrace, nameAt?_of_brace hPlain hBrace]

/-- **Search by segments.** Names that stay within their segments are found on either side of a slash. -/
theorem placeholders_append_slash (cs rest : List Char) :
    (placeholders (cs ++ '/' :: rest)).filter withinSegment =
      (placeholders cs).filter withinSegment ++ (placeholders rest).filter withinSegment := by
  induction cs with
  | nil =>
    rw [List.nil_append, placeholders_of_ne (by decide)]
    rfl
  | cons c cs ih =>
    by_cases hOpen : c = openBrace
    · subst hOpen
      rw [List.cons_append, placeholders_open, placeholders_open, List.filter_append, List.filter_append, ih,
        nameAt?_append_slash, List.append_assoc]
    · rw [List.cons_append, placeholders_of_ne hOpen, placeholders_of_ne hOpen, ih]

/-- All names in a segment stay within it. -/
theorem filter_placeholders_segment {segment : List Char} (h : '/' ∉ segment) :
    (placeholders segment).filter withinSegment = placeholders segment := by
  rw [List.filter_eq_self]
  intro name hName
  rw [withinSegment_iff]
  exact fun hMem => h ((mem_placeholders hName).2.2.subset hMem)

/-- The names that stay within their segments are those of the segments, in order. -/
theorem placeholders_intercalate {segments : List (List Char)} (h : ∀ segment ∈ segments, '/' ∉ segment) :
    (placeholders (['/'].intercalate segments)).filter withinSegment = segments.flatMap placeholders := by
  induction segments with
  | nil => rfl
  | cons segment rest ih =>
    obtain ⟨hHead, hTail⟩ := List.forall_mem_cons.mp h
    cases rest with
    | nil => simpa using filter_placeholders_segment hHead
    | cons next rest =>
      rw [List.intercalate_cons_cons, List.append_assoc, List.singleton_append, placeholders_append_slash,
        ih hTail, filter_placeholders_segment hHead]
      rfl

/-- Slashes at the ends of a path hold no names. -/
theorem placeholders_trim (cs : List Char) :
    (placeholders cs).filter withinSegment = (placeholders (trim (· == '/') cs)).filter withinSegment := by
  have hFront : ∀ cs : List Char, placeholders (cs.dropWhile (· == '/')) = placeholders cs := by
    intro cs
    induction cs with
    | nil => rfl
    | cons c cs ih =>
      rw [List.dropWhile_cons]
      split
      · rename_i hSlash
        rw [ih, beq_iff_eq.mp hSlash, placeholders_of_ne (by decide)]
      · rfl
  have hBack : ∀ cs : List Char, (placeholders cs.reverse).filter withinSegment =
      (placeholders (cs.dropWhile (· == '/')).reverse).filter withinSegment := by
    intro cs
    induction cs with
    | nil => rfl
    | cons c cs ih =>
      rw [List.dropWhile_cons]
      split
      · rename_i hSlash
        rw [beq_iff_eq.mp hSlash, List.reverse_cons, placeholders_append_slash, ih]
        simp [placeholders]
      · rfl
  rw [trim, ← hBack, List.reverse_reverse, hFront]

-- ---------------------------------------------------------------------------
-- The pieces of a segment
-- ---------------------------------------------------------------------------

/-- The name that is looked up for a piece. -/
def Piece.name? : Piece → Option String
  | text _ => none
  | placeholder name => some (.ofList name)

/-- The names that are looked up for a segment. -/
def namesIn (segment : List Char) : List String := (pieces segment).filterMap Piece.name?

/-- What is left of a name after its last opening brace. -/
def innermost (name : List Char) : List Char := (name.reverse.takeWhile (· != openBrace)).reverse

/-- The name that is left, if anything is. -/
def innermost? (name : String) : Option String :=
  if (innermost name.toList).isEmpty then none else some (.ofList (innermost name.toList))

/-- The name has no opening brace, and is not empty. -/
def ProperName (name : String) : Prop := name ≠ "" ∧ openBrace ∉ name.toList

instance (name : String) : Decidable (ProperName name) := inferInstanceAs (Decidable (_ ∧ _))

theorem innermost_of_not_mem {name : List Char} (h : openBrace ∉ name) : innermost name = name := by
  rw [innermost, List.takeWhile_eq_self_iff.mpr, List.reverse_reverse]
  exact fun c hc => bne_iff_ne.mpr (ne_of_mem_of_not_mem (List.mem_reverse.mp hc) h)

theorem innermost_of_brace (outer : List Char) {inner : List Char} (h : openBrace ∉ inner) :
    innermost (outer ++ openBrace :: inner) = inner := by
  have hInner : ∀ c ∈ inner.reverse, (c != openBrace) = true := fun c hc =>
    bne_iff_ne.mpr (ne_of_mem_of_not_mem (List.mem_reverse.mp hc) h)
  rw [innermost, List.reverse_append, List.reverse_cons, List.append_assoc,
    List.takeWhile_append_of_pos hInner, List.singleton_append, List.takeWhile_cons_of_neg (by simp),
    List.append_nil, List.reverse_reverse]

theorem not_mem_innermost (name : List Char) : openBrace ∉ innermost name := by
  intro hMem
  have hOther := List.mem_takeWhile_imp (List.mem_reverse.mp hMem)
  simp at hOther

/-- A name is left whole exactly if it is proper. -/
theorem innermost?_eq_self_iff {name : String} : innermost? name = some name ↔ ProperName name := by
  constructor
  · intro h
    unfold innermost? at h
    split at h
    · cases h
    · rename_i hSome
      have hWhole : innermost name.toList = name.toList := by
        simpa using congrArg String.toList (Option.some.inj h)
      rw [hWhole, List.isEmpty_iff] at hSome
      exact ⟨fun hEmpty => hSome (by rw [hEmpty]; rfl), hWhole ▸ not_mem_innermost name.toList⟩
  · rintro ⟨hSome, hPlain⟩
    rw [innermost?, innermost_of_not_mem hPlain, if_neg, String.ofList_toList]
    rw [List.isEmpty_iff]
    exact fun hNil => hSome (String.toList_inj.mp hNil)

/-- What comes before an opening brace is passed over if it closes none. -/
theorem placeholders_before_brace {cs : List Char} (h : closeBrace ∉ cs) (rest : List Char) :
    placeholders (cs ++ openBrace :: rest) = placeholders (openBrace :: rest) := by
  induction cs with
  | nil => rfl
  | cons c cs ih =>
    rw [List.mem_cons, not_or] at h
    by_cases hOpen : c = openBrace
    · subst hOpen
      have hNone : nameAt? (cs ++ openBrace :: rest) = none := by
        rcases plain_or_brace cs with hPlain | ⟨plain, b, after, rfl, hPlain, hBrace⟩
        · rw [nameAt?_of_brace hPlain (by decide)]
          exact if_neg fun hBoth => absurd hBoth.2 (by decide)
        · rw [List.append_assoc, List.cons_append, nameAt?_of_brace hPlain hBrace]
          exact if_neg fun hBoth => h.2 (by rw [hBoth.2]; simp)
      rw [List.cons_append, placeholders_open, hNone, ih h.2]
      rfl
    · rw [List.cons_append, placeholders_of_ne hOpen, ih h.2]

/-- A name without braces is found if it is not empty. -/
theorem placeholders_plain {name : List Char} (hOpen : openBrace ∉ name) (hClose : closeBrace ∉ name)
    (rest : List Char) :
    placeholders (openBrace :: (name ++ closeBrace :: rest)) =
      (innermost? (.ofList name)).toList ++ placeholders rest := by
  have hPlain : Plain name := by
    intro c hc
    have hNotOpen := ne_of_mem_of_not_mem hc hOpen
    have hNotClose := ne_of_mem_of_not_mem hc hClose
    simp [isNameChar, hNotOpen, hNotClose]
  have hPassed : placeholders (name ++ closeBrace :: rest) = placeholders rest := by
    rw [placeholders_of_forall_ne fun c hc => ne_of_mem_of_not_mem hc hOpen, placeholders_of_ne (by decide)]
  rw [placeholders_open, nameAt?_of_brace hPlain (by decide), hPassed, innermost?, String.toList_ofList,
    innermost_of_not_mem hOpen]
  cases name with
  | nil => rfl
  | cons c name => rfl

/-- Of any other name, what is left after its last opening brace is. -/
theorem placeholders_placeholder {name : List Char} (hClose : closeBrace ∉ name) (rest : List Char) :
    placeholders (openBrace :: (name ++ closeBrace :: rest)) =
      (innermost? (.ofList name)).toList ++ placeholders rest := by
  by_cases hMem : openBrace ∈ name
  · obtain ⟨reversed, before, hSplit, hLast⟩ := List.eq_append_cons_of_mem (List.mem_reverse.mpr hMem)
    obtain ⟨outer, inner, rfl, hOpen⟩ : ∃ outer inner, name = outer ++ openBrace :: inner ∧
        openBrace ∉ inner := by
      refine ⟨before.reverse, reversed.reverse, ?_, fun hMem => hLast (List.mem_reverse.mp hMem)⟩
      rw [← List.reverse_reverse name, hSplit]
      simp
    rw [List.mem_append, List.mem_cons, not_or, not_or] at hClose
    have hOuter : closeBrace ∉ openBrace :: outer := by
      rw [List.mem_cons, not_or]
      exact ⟨by decide, hClose.1⟩
    have hPassed := placeholders_before_brace hOuter (inner ++ closeBrace :: rest)
    rw [placeholders_plain hOpen hClose.2.2] at hPassed
    have hInner : innermost? (.ofList (outer ++ openBrace :: inner)) = innermost? (.ofList inner) := by
      rw [innermost?, innermost?, String.toList_ofList, String.toList_ofList, innermost_of_brace outer hOpen,
        innermost_of_not_mem hOpen]
    rw [hInner, ← hPassed]
    simp
  · exact placeholders_plain hMem hClose rest

/-- What both readers leave to be looked up; after a name, its closing brace comes first. -/
theorem placeholders_from (cs : List Char) :
    placeholders cs = ((textFrom cs).2.filterMap Piece.name?).filterMap innermost? ∧
    (closeBrace ∈ cs → ∃ rest, cs = (nameFrom cs).1 ++ closeBrace :: rest ∧
      placeholders rest = ((nameFrom cs).2.filterMap Piece.name?).filterMap innermost?) := by
  induction cs with
  | nil => exact ⟨rfl, fun hMem => absurd hMem List.not_mem_nil⟩
  | cons c rest ih =>
    obtain ⟨hText, hName⟩ := ih
    constructor
    · rw [textFrom]
      split
      · rename_i hOpens
        rw [Bool.and_eq_true, beq_iff_eq, List.contains_iff_mem] at hOpens
        obtain ⟨rfl, hCloses⟩ := hOpens
        obtain ⟨after, hRest, hAfter⟩ := hName hCloses
        have hWhole := placeholders_placeholder (proper_from rest).2.1 after
        rw [← hRest, hAfter] at hWhole
        rw [hWhole]
        simp only [List.filterMap_cons, Piece.name?]
        cases innermost? (.ofList (nameFrom rest).1) <;> rfl
      · rename_i hStays
        rw [Bool.and_eq_true, beq_iff_eq, List.contains_iff_mem, not_and] at hStays
        by_cases hOpen : c = openBrace
        · rw [hOpen, placeholders_open, nameAt?_of_not_mem (hStays hOpen)]
          exact hText
        · rw [placeholders_of_ne hOpen]
          exact hText
    · intro hMem
      rw [nameFrom]
      split
      · rename_i hCloses
        exact ⟨rest, by rw [beq_iff_eq.mp hCloses]; rfl, hText⟩
      · rename_i hOther
        have hRest : closeBrace ∈ rest := by
          rcases List.mem_cons.mp hMem with hSame | hMem
          · exact absurd (beq_iff_eq.mpr hSame.symm) hOther
          · exact hMem
        obtain ⟨after, hAfter, hFound⟩ := hName hRest
        exact ⟨after, congrArg (c :: ·) hAfter, hFound⟩

/-- **Search by pieces.** In a segment, what is found is what is left of the names that are looked up. -/
theorem placeholders_eq_names (segment : List Char) :
    placeholders segment = (namesIn segment).filterMap innermost? :=
  (placeholders_from segment).1

/-- A name that is looked up for a segment is a part of it and holds no closing brace. -/
theorem mem_namesIn {segment : List Char} {name : String} (h : name ∈ namesIn segment) :
    closeBrace ∉ name.toList ∧ ∀ c ∈ name.toList, c ∈ segment := by
  obtain ⟨p, hp, hName⟩ := List.mem_filterMap.mp h
  cases p with
  | text cs => cases hName
  | placeholder cs =>
    cases hName
    rw [String.toList_ofList]
    refine ⟨pieces_proper segment _ hp, fun c hc => ?_⟩
    rw [← pieces_source segment]
    refine List.mem_flatMap.mpr ⟨_, hp, ?_⟩
    exact List.mem_cons_of_mem _ (List.mem_append_left _ hc)

-- ---------------------------------------------------------------------------
-- Paths
-- ---------------------------------------------------------------------------

/-- The segments of a path, without the slashes at its ends. -/
def segmentsOf (path : String) : List String :=
  let stripped := trim (· == '/') path.toList
  if stripped.isEmpty then [] else (splitOn '/' stripped).map String.ofList

/-- They are all of it. -/
theorem intercalate_segmentsOf (path : String) :
    ['/'].intercalate ((segmentsOf path).map String.toList) = (stripSlashes path).toList := by
  unfold segmentsOf stripSlashes
  dsimp only
  rw [String.toList_ofList]
  split
  · rename_i hEmpty
    rw [List.isEmpty_iff.mp hEmpty]
    rfl
  · simp [intercalate_splitOn]

/-- The names that are looked up for segments. -/
def lookedUp (segments : List String) : List String :=
  segments.flatMap fun segment => namesIn segment.toList

theorem lookedUp_segmentsOf (path : String) :
    lookedUp (segmentsOf path) = (splitOn '/' (trim (· == '/') path.toList)).flatMap namesIn := by
  unfold segmentsOf lookedUp
  dsimp only
  split
  · rename_i hEmpty
    rw [List.isEmpty_iff.mp hEmpty]
    rfl
  · rw [List.flatMap_map]
    simp only [String.toList_ofList]

/-- Names that are looked up stay within their segments, and hold no closing brace. -/
theorem mem_lookedUp {path name : String} (h : name ∈ lookedUp (segmentsOf path)) :
    closeBrace ∉ name.toList ∧ '/' ∉ name.toList := by
  rw [lookedUp_segmentsOf] at h
  obtain ⟨segment, hSegment, hName⟩ := List.mem_flatMap.mp h
  obtain ⟨hClose, hPart⟩ := mem_namesIn hName
  exact ⟨hClose, fun hSlash => not_mem_of_mem_splitOn hSegment (hPart _ hSlash)⟩

/-- **Both readings.** Of the names that are found in a path, those that stay within their segments are
what is left of the names that are looked up, in order. -/
theorem placeholders_eq_lookedUp (path : String) :
    (placeholders path.toList).filter withinSegment =
      (lookedUp (segmentsOf path)).filterMap innermost? := by
  have hSegments : ∀ segment ∈ splitOn '/' (trim (· == '/') path.toList), '/' ∉ segment := fun _ h =>
    not_mem_of_mem_splitOn h
  have hSearch := placeholders_intercalate hSegments
  rw [intercalate_splitOn] at hSearch
  rw [placeholders_trim, hSearch, lookedUp_segmentsOf, List.filterMap_flatMap]
  exact List.flatMap_congr fun segment _ => placeholders_eq_names segment

/-- **Agreement.** Both readings give the same names, in the same order, exactly if all names that are
looked up are proper and all names that are found stay within their segments. -/
theorem readings_agree_iff (path : String) :
    lookedUp (segmentsOf path) = placeholders path.toList ↔
      (∀ name ∈ lookedUp (segmentsOf path), ProperName name) ∧
        ∀ name ∈ placeholders path.toList, '/' ∉ name.toList := by
  constructor
  · intro hSame
    refine ⟨fun name hName => ?_, fun name hName => ?_⟩
    · rw [hSame] at hName
      obtain ⟨hSome, hPlain, -⟩ := mem_placeholders hName
      exact ⟨hSome, fun hOpen => absurd (hPlain _ hOpen) (by decide)⟩
    · rw [← hSame] at hName
      exact (mem_lookedUp hName).2
  · rintro ⟨hProper, hWithin⟩
    have hFound : (placeholders path.toList).filter withinSegment = placeholders path.toList :=
      List.filter_eq_self.mpr fun name hName => withinSegment_iff.mpr (hWithin name hName)
    have hLeft : (lookedUp (segmentsOf path)).filterMap innermost? = lookedUp (segmentsOf path) := by
      rw [List.filterMap_congr fun name hName => innermost?_eq_self_iff.mpr (hProper name hName)]
      exact List.filterMap_some
    rw [← hFound, placeholders_eq_lookedUp, hLeft]

/-- A proper name that is looked up is found. -/
theorem mem_placeholders_of_lookedUp {path name : String} (h : name ∈ lookedUp (segmentsOf path))
    (hProper : ProperName name) : name ∈ placeholders path.toList := by
  have hLeft : name ∈ (lookedUp (segmentsOf path)).filterMap innermost? :=
    List.mem_filterMap.mpr ⟨name, h, innermost?_eq_self_iff.mpr hProper⟩
  rw [← placeholders_eq_lookedUp] at hLeft
  exact (List.mem_filter.mp hLeft).1

/-- A name that is found stays within its segment exactly if it is left of a name that is looked up. -/
theorem within_iff_of_placeholders {path name : String} (h : name ∈ placeholders path.toList) :
    '/' ∉ name.toList ↔ ∃ outer ∈ lookedUp (segmentsOf path), innermost? outer = some name := by
  rw [← List.mem_filterMap, ← placeholders_eq_lookedUp, List.mem_filter, withinSegment_iff]
  exact ⟨fun hWithin => ⟨h, hWithin⟩, And.right⟩

end ClientGen.Path
