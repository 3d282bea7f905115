import ClientGen.Api.Parameter
import ClientGen.Proofs.Text.Words

/-!
# Clean descriptions

A description is cleaned in one pass over its tags and one over its blanks. Each pass might
undo the other's work or its own: where a tag is taken out the characters around it come
together, and these could make up a new one. They do not. An opening bracket that stays is
one that no closing bracket comes after, or that one comes after at once, and neither pass
changes this (`closesTag_dropTags`, `closesTag_replaceRuns`). So one pass of each is enough.

Main results:

* `untagged_cons` — a text without tags, character by character.
* `untagged_dropTags` / `dropTags_eq_self` — all tags are taken out, and nothing is where
  there are none.
* `untagged_replaceRuns` — single spaces make no tag of what was none.
* `clean_of_cleanDescription?` — cleaned descriptions are clean, and are left as they are.
-/

namespace ClientGen.Api

open ClientGen.Text

-- ---------------------------------------------------------------------------
-- Tags
-- ---------------------------------------------------------------------------

/-- An opening angle bracket, some characters other than a closing one, and a closing one. -/
def IsTag (cs : List Char) : Prop := ∃ inner, inner ≠ [] ∧ '>' ∉ inner ∧ cs = '<' :: inner ++ ['>']

/-- No part of the text is a tag. -/
def Untagged (cs : List Char) : Prop := ∀ part, part <:+: cs → ¬ IsTag part

theorem Untagged.of_isInfix {cs ds : List Char} (h : Untagged cs) (hPart : ds <:+: cs) : Untagged ds :=
  fun part hInner => h part (hInner.trans hPart)

/-- A tag is closed by any closing bracket that does not come at once. -/
theorem closesTag_iff {cs : List Char} : closesTag cs = true ↔ cs.head? ≠ some '>' ∧ '>' ∈ cs := by
  cases cs with
  | nil => simp [closesTag]
  | cons c rest =>
    simp only [closesTag, Bool.and_eq_true, bne_iff_ne, List.contains_iff_mem, List.head?_cons,
      List.mem_cons, ne_eq, Option.some.injEq]
    refine and_congr_right fun hc => ?_
    exact ⟨Or.inr, fun h => h.resolve_left fun hSame => hc hSame.symm⟩

/-- A text starts with a tag just where it starts with an opening bracket and the tag is closed. -/
theorem exists_tag_prefix_iff {c : Char} {rest : List Char} :
    (∃ tag, tag <+: c :: rest ∧ IsTag tag) ↔ c = '<' ∧ closesTag rest = true := by
  rw [closesTag_iff]
  constructor
  · rintro ⟨_, ⟨after, hAll⟩, inner, hSome, hInner, rfl⟩
    obtain ⟨rfl, hRest⟩ := List.cons.inj hAll
    refine ⟨rfl, ?_, hRest ▸ by simp⟩
    cases inner with
    | nil => exact absurd rfl hSome
    | cons d inner =>
      rw [← hRest]
      intro hHead
      obtain rfl : d = '>' := by simpa using hHead
      exact hInner List.mem_cons_self
  · rintro ⟨rfl, hHead, hMem⟩
    obtain ⟨inner, after, rfl, hInner⟩ := List.eq_append_cons_of_mem hMem
    refine ⟨'<' :: inner ++ ['>'], ⟨after, by simp⟩, inner, ?_, hInner, rfl⟩
    rintro rfl
    exact hHead rfl

/-- A text has no tags if it does not start with one and the rest has none. -/
theorem untagged_cons {c : Char} {rest : List Char} :
    Untagged (c :: rest) ↔ ¬ (c = '<' ∧ closesTag rest = true) ∧ Untagged rest := by
  rw [← exists_tag_prefix_iff]
  constructor
  · intro h
    refine ⟨?_, h.of_isInfix (List.suffix_cons c rest).isInfix⟩
    rintro ⟨tag, hTag, hIs⟩
    exact h tag hTag.isInfix hIs
  · rintro ⟨hFirst, hRest⟩ part hPart hTag
    rcases List.infix_cons_iff.mp hPart with hPrefix | hInner
    · exact hFirst ⟨part, hPrefix, hTag⟩
    · exact hRest part hInner hTag

theorem untagged_nil : Untagged [] := by
  rintro part hPart ⟨inner, -, -, rfl⟩
  simp at hPart

-- ---------------------------------------------------------------------------
-- Taking tags out
-- ---------------------------------------------------------------------------

theorem mem_of_mem_dropTags {cs : List Char} {c : Char} (h : c ∈ dropTags cs) : c ∈ cs := by
  fun_induction dropTags cs with
  | case1 => exact h
  | case2 d rest _ ih =>
    exact List.mem_cons_of_mem _ ((List.dropWhile_sublist _).subset (List.mem_of_mem_tail (ih h)))
  | case3 d rest _ ih => exact List.mem_cons.mpr ((List.mem_cons.mp h).imp_right ih)

/-- What would be closed after tags are taken out was closed before. -/
theorem closesTag_dropTags {cs : List Char} (h : closesTag (dropTags cs) = true) :
    closesTag cs = true := by
  rw [closesTag_iff] at h ⊢
  refine ⟨fun hHead => h.1 ?_, mem_of_mem_dropTags h.2⟩
  cases cs with
  | nil => cases hHead
  | cons c rest =>
    obtain rfl : c = '>' := by simpa using hHead
    simp [dropTags]

/-- **One pass takes out all tags.** -/
theorem untagged_dropTags (cs : List Char) : Untagged (dropTags cs) := by
  fun_induction dropTags cs with
  | case1 => exact untagged_nil
  | case2 c rest _ ih => exact ih
  | case3 c rest hKept ih =>
    refine untagged_cons.mpr ⟨?_, ih⟩
    rintro ⟨rfl, hCloses⟩
    exact hKept (by simp [closesTag_dropTags hCloses])

theorem dropTags_eq_self {cs : List Char} (h : Untagged cs) : dropTags cs = cs := by
  induction cs with
  | nil => rw [dropTags]
  | cons c rest ih =>
    obtain ⟨hFirst, hRest⟩ := untagged_cons.mp h
    rw [dropTags, if_neg (by simpa using hFirst), ih hRest]

-- ---------------------------------------------------------------------------
-- Single spaces
-- ---------------------------------------------------------------------------

section Spaces

variable {p : Char → Bool} {mark : Char}

/-- What would be closed after runs are replaced was closed before. -/
theorem closesTag_replaceRuns (hClass : p '>' = false) (hMark : mark ≠ '>') {cs : List Char}
    (h : closesTag (replaceRuns p mark cs) = true) : closesTag cs = true := by
  rw [closesTag_iff] at h ⊢
  constructor
  · intro hHead
    cases cs with
    | nil => cases hHead
    | cons c rest =>
      obtain rfl : c = '>' := by simpa using hHead
      exact h.1 (by rw [head?_replaceRuns, if_neg (by simp [hClass])])
  · exact ((mem_replaceRuns h.2).resolve_left hMark.symm).1

/-- A mark that is no bracket makes no tags. -/
theorem untagged_replaceRuns (hClass : p '>' = false) (hOpen : mark ≠ '<') (hClose : mark ≠ '>')
    {cs : List Char} (h : Untagged cs) : Untagged (replaceRuns p mark cs) := by
  induction cs with
  | nil => exact untagged_nil
  | cons a rest ih =>
    obtain ⟨hFirst, hRest⟩ := untagged_cons.mp h
    have hStart : (if p a then mark else a) = '<' → a = '<' := by
      split
      · exact fun hMark => absurd hMark hOpen
      · exact id
    cases rest with
    | nil => exact untagged_cons.mpr ⟨fun hTag => by simp [closesTag] at hTag, untagged_nil⟩
    | cons b rest =>
      rw [replaceRuns]
      split
      · exact ih hRest
      · refine untagged_cons.mpr ⟨?_, ih hRest⟩
        rintro ⟨hTag, hCloses⟩
        exact hFirst ⟨hStart hTag, closesTag_replaceRuns hClass hClose hCloses⟩

end Spaces

-- ---------------------------------------------------------------------------
-- Descriptions
-- ---------------------------------------------------------------------------

/-- A text without tags and without blanks other than single spaces between other characters. -/
structure IsClean (text : String) : Prop where
  nonempty : text ≠ ""
  untagged : Untagged text.toList
  blanks   : ∀ c ∈ text.toList, isBlank c = true → c = ' '
  parted   : Parted ' ' text.toList
  first    : ∀ c ∈ text.toList.head?, isBlank c = false
  last     : ∀ c ∈ text.toList.getLast?, isBlank c = false

/-- The words of a text, which blanks keep apart. -/
def wordsBetweenBlanks (cs : List Char) : List (List Char) := wordsOf (! isBlank ·) cs

/-- What remains of a text when it is cleaned. -/
def cleanChars (cs : List Char) : List Char := trim isBlank (replaceRuns isBlank ' ' (dropTags cs))

theorem cleanText?_eq_none_iff {text : String} : cleanText? text = none ↔ cleanChars text.toList = [] := by
  unfold cleanText?
  split
  · rename_i hNone
    exact iff_of_true rfl hNone
  · rename_i hSome
    exact iff_of_false nofun hSome

theorem cleanText?_eq_some_iff {text s : String} :
    cleanText? text = some s ↔ s ≠ "" ∧ cleanChars text.toList = s.toList := by
  unfold cleanText?
  split
  · rename_i hNone
    refine iff_of_false nofun ?_
    rintro ⟨hSome, hChars⟩
    rw [show cleanChars text.toList = [] from hNone] at hChars
    exact hSome (String.toList_eq_nil_iff.mp hChars.symm)
  · rename_i hSome
    rw [Option.some.injEq]
    constructor
    · rintro rfl
      exact ⟨by simpa using hSome, by rw [String.toList_ofList]; rfl⟩
    · rintro ⟨-, hChars⟩
      rw [← String.ofList_toList (s := s), ← hChars]
      rfl

theorem wordsBetweenBlanks_cleanChars (cs : List Char) :
    wordsBetweenBlanks (cleanChars cs) = wordsBetweenBlanks (dropTags cs) := by
  rw [wordsBetweenBlanks, cleanChars, wordsOf_trim, wordsOf_replaceRuns (by decide), wordsBetweenBlanks]

theorem cleanChars_eq_nil_iff {cs : List Char} :
    cleanChars cs = [] ↔ ∀ c ∈ dropTags cs, isBlank c = true := by
  have hNone : ∀ ds, wordsBetweenBlanks ds = [] ↔ ∀ c ∈ ds, isBlank c = true := fun ds => by
    simp [wordsBetweenBlanks, wordsOf_eq_nil_iff]
  rw [← hNone, ← wordsBetweenBlanks_cleanChars, hNone]
  constructor
  · intro hNil
    simp [hNil]
  · -- what remains does not start with a blank
    intro hBlanks
    rw [← List.head?_eq_none_iff, Option.eq_none_iff_forall_not_mem]
    intro c hc
    have hOther : isBlank c = false := trim_head? hc
    rw [hBlanks c (List.mem_of_mem_head? hc)] at hOther
    cases hOther

theorem isClean_of_cleanText? {text s : String} (h : cleanText? text = some s) : IsClean s := by
  obtain ⟨hSome, hChars⟩ := cleanText?_eq_some_iff.mp h
  have hPart : s.toList <:+: replaceRuns isBlank ' ' (dropTags text.toList) :=
    hChars ▸ trim_isInfix isBlank _
  have hUntagged : Untagged (replaceRuns isBlank ' ' (dropTags text.toList)) :=
    untagged_replaceRuns (by decide) (by decide) (by decide) (untagged_dropTags _)
  refine ⟨hSome, hUntagged.of_isInfix hPart, ?_, ?_, ?_, ?_⟩
  · intro c hc hBlank
    refine (mem_replaceRuns (hPart.subset hc)).resolve_right ?_
    rintro ⟨-, hOther⟩
    rw [hBlank] at hOther
    cases hOther
  · exact (parted_replaceRuns (by decide) _).of_isInfix hPart
  · rw [← hChars]
    exact fun c hc => trim_head? hc
  · rw [← hChars]
    exact fun c hc => trim_getLast? hc

/-- A clean text is left as it is. -/
theorem cleanText?_of_isClean {s : String} (h : IsClean s) : cleanText? s = some s := by
  refine cleanText?_eq_some_iff.mpr ⟨h.nonempty, ?_⟩
  rw [cleanChars, dropTags_eq_self h.untagged, replaceRuns_eq_self h.blanks h.parted,
    trim_eq_self h.first h.last]

/--
**Descriptions are fully clean.** Nothing remains of a text just where it has only blanks beside its tags.
What else remains is not empty, has no tags and no blanks but single spaces between other characters; its
words are those of the text without its tags, and cleaning it once more changes nothing.
-/
theorem clean_of_cleanDescription? (text : String) :
    (cleanDescription? (some (.str text)) = none ↔ ∀ c ∈ dropTags text.toList, isBlank c = true) ∧
    ∀ s, cleanDescription? (some (.str text)) = some s →
      IsClean s ∧ wordsBetweenBlanks s.toList = wordsBetweenBlanks (dropTags text.toList) ∧
      cleanDescription? (some (.str s)) = some s := by
  refine ⟨cleanText?_eq_none_iff.trans cleanChars_eq_nil_iff, fun s h => ?_⟩
  have hClean : IsClean s := isClean_of_cleanText? h
  have hWords : wordsBetweenBlanks s.toList = wordsBetweenBlanks (dropTags text.toList) := by
    rw [← (cleanText?_eq_some_iff.mp h).2, wordsBetweenBlanks_cleanChars]
  exact ⟨hClean, hWords, cleanText?_of_isClean hClean⟩

/-- A description with a tag inside another one, with brackets that are no tags, and with blanks of
several kinds; and one that has nothing but tags and blanks. -/
theorem clean_nestedTags :
    cleanDescription? (some (.str "\t<p>3 <> 4\n <<b>and</b>> 5 < 6 ")) = some "3 <> 4 and> 5 < 6" ∧
    IsClean "3 <> 4 and> 5 < 6" ∧
    cleanDescription? (some (.str "3 <> 4 and> 5 < 6")) = some "3 <> 4 and> 5 < 6" ∧
    cleanDescription? (some (.str "<p>\n</p>")) = none := by
  have hText : cleanDescription? (some (.str "\t<p>3 <> 4\n <<b>and</b>> 5 < 6 ")) =
      some "3 <> 4 and> 5 < 6" := by
    decide +kernel
  obtain ⟨hClean, -, hAgain⟩ := (clean_of_cleanDescription? _).2 _ hText
  exact ⟨hText, hClean, hAgain, by decide +kernel⟩

end ClientGen.Api
