import ClientGen.Enumeration.Signature
import ClientGen.Proofs.Enumeration.Decoded
import ClientGen.Proofs.Naming.Capital
import ClientGen.Proofs.Text.Runs
import Mathlib.Data.List.Basic

/-!
# Names of literal values

The member of an enumeration is named by the text of its value. The text is written in
capitals first, and the mark for what cannot stand in a name is dropped at the ends;
then a leading digit gets one again, and a text of which nothing is left is named by its
digest. Behind each of these names there is a word: capitals and digits with single
underscores between them (`IsWord`). A name is its word, with an underscore before it if
it starts with a digit, and naming the name finds the word again. So it changes nothing.

Main results:

* `isWord_caseWord` / `caseWord_of_isWord` — the word of a text, and of a word.
* `exists_word` — each name is a guarded word.
* `caseName_of_literal` — literal values have legal names, which name themselves.
-/

namespace ClientGen.Enumeration

open ClientGen.Document ClientGen.Document.Json ClientGen.Naming ClientGen.Text

-- ---------------------------------------------------------------------------
-- Capitals
-- ---------------------------------------------------------------------------

/-- On ASCII, upper case is that of each character. -/
theorem upper_ascii {cs : List Char} (h : ∀ c ∈ cs, c.toNat < 0x80) : upper cs = cs.map Char.toUpper := by
  rw [upper, List.map_eq_flatMap]
  refine List.flatMap_congr ?_
  intro c hc
  exact if_pos (h c hc)

/-- A character of a name: a capital, a digit or the underscore. -/
def IsNameChar (c : Char) : Prop := isCaseChar c = true ∨ c = '_'

instance (c : Char) : Decidable (IsNameChar c) := inferInstanceAs (Decidable (_ ∨ _))

theorem IsNameChar.ascii {c : Char} (h : IsNameChar c) : c.toNat < 0x80 := by
  rcases h with hCase | rfl
  · rw [isCaseChar, Bool.or_eq_true] at hCase
    exact ascii_of_isAlphanum
      (isAlphanum_iff.mpr (hCase.imp_left fun hUpper => isAlpha_iff.mpr (Or.inl hUpper)))
  · decide

theorem IsNameChar.isLower_eq_false {c : Char} (h : IsNameChar c) : c.isLower = false := by
  rcases h with hCase | rfl
  · rw [isCaseChar, Bool.or_eq_true] at hCase
    rcases hCase with hUpper | hDigit
    · exact not_isLower_of_isUpper hUpper
    · exact not_isLower_of_isDigit hDigit
  · decide

/-- What names are made of is in capitals already. -/
theorem upper_eq_self {cs : List Char} (h : ∀ c ∈ cs, IsNameChar c) : upper cs = cs := by
  rw [upper_ascii fun c hc => (h c hc).ascii]
  conv_rhs => rw [← List.map_id cs]
  refine List.map_congr_left ?_
  intro c hc
  exact toUpper_eq_self (h c hc).isLower_eq_false

-- ---------------------------------------------------------------------------
-- Digests
-- ---------------------------------------------------------------------------

theorem length_hexDigits (width n : Nat) : (hexDigits width n).length = width := by
  induction width generalizing n with
  | zero => rfl
  | succ width ih => rw [hexDigits, List.length_append, ih, List.length_singleton]

theorem exists_of_mem_hexDigits {width n : Nat} {c : Char} (h : c ∈ hexDigits width n) :
    ∃ d < 16, c = Nat.digitChar d := by
  induction width generalizing n with
  | zero => exact absurd h List.not_mem_nil
  | succ width ih =>
    rw [hexDigits, List.mem_append, List.mem_singleton] at h
    rcases h with h | rfl
    · exact ih h
    · exact ⟨n % 16, Nat.mod_lt n (by decide), rfl⟩

/-- A digest has 32 digits. -/
theorem length_hexDigest (text : String) : (Md5.hexDigest text).length = 32 := by
  have hTwo : ∀ bytes : List UInt8,
      (bytes.flatMap fun b => hexDigits 2 b.toNat).length = 2 * bytes.length := by
    intro bytes
    induction bytes with
    | nil => rfl
    | cons b bytes ih => rw [List.flatMap_cons, List.length_append, ih, length_hexDigits, List.length_cons,
        Nat.mul_succ, Nat.add_comm]
  rw [Md5.hexDigest, hTwo]
  rfl

theorem exists_of_mem_hexDigest {text : String} {c : Char} (h : c ∈ Md5.hexDigest text) :
    ∃ d < 16, c = Nat.digitChar d := by
  obtain ⟨_, -, hDigits⟩ := List.mem_flatMap.mp h
  exact exists_of_mem_hexDigits hDigits

theorem upper_hexDigest (text : String) :
    upper (Md5.hexDigest text) = (Md5.hexDigest text).map Char.toUpper := by
  have hAscii : ∀ d < 16, (Nat.digitChar d).toNat < 0x80 := by decide
  refine upper_ascii ?_
  intro c hc
  obtain ⟨d, hd, rfl⟩ := exists_of_mem_hexDigest hc
  exact hAscii d hd

/-- In capitals, a digest is made of capitals and digits. -/
theorem isCaseChar_of_mem_digest {text : String} {c : Char} (h : c ∈ upper (Md5.hexDigest text)) :
    isCaseChar c = true := by
  have hDigits : ∀ d < 16, isCaseChar (Nat.digitChar d).toUpper = true := by decide
  rw [upper_hexDigest] at h
  obtain ⟨c, hc, rfl⟩ := List.mem_map.mp h
  obtain ⟨d, hd, rfl⟩ := exists_of_mem_hexDigest hc
  exact hDigits d hd

-- ---------------------------------------------------------------------------
-- Words
-- ---------------------------------------------------------------------------

/-- Capitals and digits, with single underscores between them. -/
structure IsWord (cs : List Char) : Prop where
  nonempty : cs ≠ []
  chars : ∀ c ∈ cs, IsNameChar c
  parted : Parted '_' cs
  first : ∀ c ∈ cs.head?, c ≠ '_'
  last : ∀ c ∈ cs.getLast?, c ≠ '_'

/-- The word that a text is named by, if anything is left of the text. -/
def caseWord (cs : List Char) : List Char :=
  trim (· == '_') (replaceRuns (! isCaseChar ·) '_' (upper cs))

theorem isWord_caseWord {cs : List Char} (h : caseWord cs ≠ []) : IsWord (caseWord cs) where
  nonempty := h
  chars := by
    intro c hc
    rcases mem_replaceRuns (mem_trim hc) with rfl | ⟨-, hKept⟩
    · exact Or.inr rfl
    · exact Or.inl (by simpa using hKept)
  parted := (parted_replaceRuns (by decide) _).of_isInfix (trim_isInfix _ _)
  first := fun c hc => by simpa using trim_head? hc
  last := fun c hc => by simpa using trim_getLast? hc

/-- Nothing is done to single underscores but at the ends. -/
theorem caseWord_of_parted {cs : List Char} (hChars : ∀ c ∈ cs, IsNameChar c) (hParted : Parted '_' cs) :
    caseWord cs = trim (· == '_') cs := by
  rw [caseWord, upper_eq_self hChars, replaceRuns_eq_self _ hParted]
  intro c hc hOther
  exact (hChars c hc).resolve_left (by simpa using hOther)

section Word

variable {word : List Char} (h : IsWord word)
include h

theorem trim_word : trim (· == '_') word = word := trim_mark_eq_self h.first h.last

/-- A word is the word of itself. -/
theorem caseWord_of_isWord : caseWord word = word := by
  rw [caseWord_of_parted h.chars h.parted, trim_word h]

/-- It is so with an underscore before it too. -/
theorem caseWord_marked : caseWord ('_' :: word) = word := by
  rw [caseWord_of_parted (List.forall_mem_cons.mpr ⟨Or.inr rfl, h.chars⟩) (h.parted.cons h.first),
    trim_cons (by decide), trim_word h]

end Word

/-- What comes before a digest. -/
theorem toList_digestMark : "VALUE_".toList = ['V', 'A', 'L', 'U', 'E', '_'] := by simp

/-- What a text without letters and digits is named by is a word. -/
theorem isWord_digest (text : String) : IsWord ("VALUE_".toList ++ upper (Md5.hexDigest text)) := by
  have hSome : upper (Md5.hexDigest text) ≠ [] := by
    rw [← List.length_pos_iff, upper_hexDigest, List.length_map, length_hexDigest]
    decide
  have hApart : '_' ∉ upper (Md5.hexDigest text) := fun hMem =>
    absurd (isCaseChar_of_mem_digest hMem) (by decide)
  refine ⟨List.append_ne_nil_of_right_ne_nil _ hSome, ?_, ?_, ?_, ?_⟩
  · have hBegin : ∀ c ∈ ['V', 'A', 'L', 'U', 'E', '_'], IsNameChar c :=
      List.forall_iff_forall_mem.mp (by decide)
    rw [toList_digestMark]
    intro c hc
    rcases List.mem_append.mp hc with hc | hc
    · exact hBegin c hc
    · exact Or.inl (isCaseChar_of_mem_digest hc)
  · have hBegin : Parted '_' ['V', 'A', 'L', 'U', 'E'] := by decide
    have hEnd : Parted '_' ('_' :: upper (Md5.hexDigest text)) := by
      refine (parted_of_not_mem hApart).cons ?_
      rintro _ hc rfl
      exact hApart (List.mem_of_mem_head? hc)
    rw [toList_digestMark]
    refine hBegin.append hEnd ?_
    rintro _ ⟨⟩
    decide
  · rw [toList_digestMark]
    rintro _ ⟨⟩
    decide
  · rw [List.getLast?_append_of_ne_nil _ hSome]
    rintro _ hc rfl
    exact hApart (List.mem_of_getLast? hc)

-- ---------------------------------------------------------------------------
-- Names
-- ---------------------------------------------------------------------------

/-- A word as a name: an underscore keeps a digit from coming first. -/
def guarded (word : List Char) : String := .ofList (if startsWithDigit word then '_' :: word else word)

/-- A text with a word is named by the word. -/
theorem caseName_of_caseWord {text : String} {word : List Char} (h : word ≠ [])
    (hWord : caseWord text.toList = word) : caseName text = guarded word := by
  unfold caseName guarded
  rw [show trim _ _ = word from hWord]
  cases word with
  | nil => exact absurd rfl h
  | cons c rest =>
    show (if c.isDigit then _ else _) = String.ofList (if c.isDigit then _ else _)
    split
    · rfl
    · rfl

/-- A text without one is named by its digest. -/
theorem caseName_of_digest {text : String} (hWord : caseWord text.toList = []) :
    caseName text = guarded ("VALUE_".toList ++ upper (Md5.hexDigest text)) := by
  have hStart : startsWithDigit ("VALUE_".toList ++ upper (Md5.hexDigest text)) = false := by
    rw [toList_digestMark]
    rfl
  unfold caseName guarded
  rw [show trim _ _ = [] from hWord, hStart, if_neg Bool.false_ne_true, String.ofList_append,
    String.ofList_toList]

/-- Each name is a guarded word. -/
theorem exists_word (text : String) : ∃ word, IsWord word ∧ caseName text = guarded word := by
  by_cases h : caseWord text.toList = []
  · exact ⟨_, isWord_digest text, caseName_of_digest h⟩
  · exact ⟨_, isWord_caseWord h, caseName_of_caseWord h rfl⟩

/-- The name of an enumeration's member: capitals, digits and underscores that do not start with a
digit. -/
structure IsMemberName (name : String) : Prop where
  nonempty : name ≠ ""
  chars : ∀ c ∈ name.toList, IsNameChar c
  start : startsWithDigit name.toList = false

/-- The name of a single value, which has no underscore at its end and no two of them in a row. -/
structure IsCaseName (name : String) : Prop extends IsMemberName name where
  last : name.toList.getLast? ≠ some '_'
  parted : Parted '_' name.toList

section Word

variable {word : List Char} (h : IsWord word)
include h

theorem isCaseName_guarded : IsCaseName (guarded word) := by
  have hLast : word.getLast? ≠ some '_' := fun hMark => h.last _ hMark rfl
  unfold guarded
  by_cases hDigit : startsWithDigit word = true
  · rw [if_pos hDigit]
    refine ⟨⟨by simp, ?_, ?_⟩, ?_, ?_⟩
    all_goals rw [String.toList_ofList]
    · exact List.forall_mem_cons.mpr ⟨Or.inr rfl, h.chars⟩
    · rfl
    · rwa [List.getLast?_cons_of_ne_nil h.nonempty]
    · exact h.parted.cons h.first
  · rw [if_neg hDigit]
    refine ⟨⟨by simpa using h.nonempty, ?_, ?_⟩, ?_, ?_⟩
    all_goals rw [String.toList_ofList]
    · exact h.chars
    · exact Bool.not_eq_true _ ▸ hDigit
    · exact hLast
    · exact h.parted

/-- A guarded word is its own name. -/
theorem caseName_guarded : caseName (guarded word) = guarded word := by
  refine caseName_of_caseWord h.nonempty ?_
  unfold guarded
  split
  · rw [String.toList_ofList, caseWord_marked h]
  · rw [String.toList_ofList, caseWord_of_isWord h]

end Word

theorem isCaseName_caseName (text : String) : IsCaseName (caseName text) := by
  obtain ⟨word, hWord, hName⟩ := exists_word text
  rw [hName]
  exact isCaseName_guarded hWord

/-- JSON values have a text: a text is its own, and another value has its canonical text. -/
theorem exists_literalText_ok {v : Value} (h : IsJson v) : ∃ text, literalText v = .ok text := by
  unfold literalText
  split
  · exact ⟨_, rfl⟩
  · exact ⟨_, canonicalText_written h⟩

/--
**Literal values have legal names.** Every JSON value has a text to be named by, and whatever a text
holds, its name has at least one character, is made of capitals, digits and underscores, does not start
with a digit, does not end with an underscore and has no two underscores in a row. The name of the name
is the name itself.
-/
theorem caseName_of_literal :
    (∀ v, IsJson v → ∃ text, literalText v = .ok text) ∧
    ∀ text, IsCaseName (caseName text) ∧ caseName (caseName text) = caseName text := by
  refine ⟨fun _ h => exists_literalText_ok h, fun text => ?_⟩
  obtain ⟨word, hWord, hName⟩ := exists_word text
  rw [hName]
  exact ⟨isCaseName_guarded hWord, caseName_guarded hWord⟩

/-- A list that is named by its JSON text, and three texts: one in another script, whose capitals are
more than its letters, one that starts with a digit, and one without any letter. -/
theorem caseName_of_awkwardValues :
    (∃ text, literalText (.list [.int 2, .str "x"]) = .ok text ∧ IsCaseName (caseName text)) ∧
      caseName "straße" = "STRASSE" ∧ caseName "2nd-try" = "_2ND_TRY" ∧
      caseName "*" = "VALUE_3389DAE361AF79B04C9C8E7057F60CC6" ∧
      caseName (caseName "*") = caseName "*" := by
  obtain ⟨hTexts, hNames⟩ := caseName_of_literal
  have hJson : IsJson (.list [.int 2, .str "x"]) := by
    refine .list ?_
    simp only [List.forall_mem_cons]
    exact ⟨.int 2, .str "x", nofun⟩
  obtain ⟨text, hText⟩ := hTexts _ hJson
  exact ⟨⟨text, hText, (hNames text).1⟩, by decide +kernel, by decide +kernel, by decide +kernel,
    (hNames "*").2⟩

end ClientGen.Enumeration
