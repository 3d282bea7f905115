import ClientGen.Document.Json.Writer
import ClientGen.Proofs.Document.Json.Numbers
import ClientGen.Proofs.Outcome

/-!
# Texts read back

A text is written character by character: what is printable stays, some characters have
a short escape and all others are written as units of 16 bits, two of them above U+FFFF.
Reading takes exactly the characters of one escape at a time, so a literal ends at its
closing quote whatever stands in it or after it.

Main results:

* `reads_textChar` — what is written of a character is read as this character.
* `reads_text` — what is written of a text is read as the text, up to the closing quote.
-/

namespace ClientGen.Document.Json

open ClientGen.Text

-- ---------------------------------------------------------------------------
-- Units of 16 bits
-- ---------------------------------------------------------------------------

theorem hexDigit?_digitChar {n : Nat} (h : n < 16) : hexDigit? n.digitChar = some n := by
  have hAll : ∀ k : Fin 16, hexDigit? k.val.digitChar = some k.val := by decide
  exact hAll ⟨n, h⟩

/-- Four hexadecimal digits are read as the number that they were written for. -/
theorem unit?_hexDigits {n : Nat} (h : n < 0x10000) {rest : List Char} (hRest : rest ≠ []) :
    unit? (hexDigits 4 n ++ rest) = some n := by
  obtain ⟨c, more, rfl⟩ := List.exists_cons_of_ne_nil hRest
  have hDigits : hexDigits 4 n ++ c :: more =
      (n / 16 / 16 / 16 % 16).digitChar :: (n / 16 / 16 % 16).digitChar :: (n / 16 % 16).digitChar ::
        (n % 16).digitChar :: c :: more := rfl
  have hEach : ∀ k, hexDigit? (k % 16).digitChar = some (k % 16) := fun k =>
    hexDigit?_digitChar (Nat.mod_lt k (by decide))
  rw [hDigits, unit?]
  simp only [hEach, Option.bind_eq_bind, Option.bind_some, Option.pure_def, Option.some.injEq]
  omega

theorem drop_hexDigits (n : Nat) (rest : List Char) : (hexDigits 4 n ++ rest).drop 4 = rest := rfl

theorem length_hexDigits (n : Nat) : (hexDigits 4 n).length = 4 := rfl

/-- A character is no half of a surrogate pair. -/
theorem char_not_surrogate (c : Char) :
    isHighSurrogate c.toNat = false ∧ isLowSurrogate c.toNat = false := by
  have hValid : c.toNat < 0xd800 ∨ (0xdfff < c.toNat ∧ c.toNat < 0x110000) := c.valid
  simp only [isHighSurrogate, isLowSurrogate, Bool.and_eq_false_iff, decide_eq_false_iff_not]
  omega

/-- The unit of a character is read as the character. -/
theorem unitChar_toNat (c : Char) : unitChar c.toNat = c := by
  obtain ⟨hHigh, hLow⟩ := char_not_surrogate c
  rw [unitChar, hHigh, hLow]
  exact Char.ofNat_toNat c

-- ---------------------------------------------------------------------------
-- Characters
-- ---------------------------------------------------------------------------

variable {start rest left value : List Char}

/-- What follows an escape other than `u` is read on its own. -/
theorem reads_shortEscape {e d : Char} (hEscape : shortEscape? e = some d)
    (h : Reads (readText start rest) value left) :
    Reads (readText start (backslash :: e :: rest)) (d :: value) left := by
  have hUnit : e ≠ 'u' := by
    rintro rfl
    cases hEscape
  obtain ⟨hShorter, hRead⟩ := h
  refine ⟨by simp only [List.length_cons]; omega, ?_⟩
  rw [readText.eq_def]
  simp [backslash, hEscape, hRead]
  rfl

/-- A character that may stand as it is. -/
theorem reads_plain {c : Char} (hQuote : c ≠ doubleQuote) (hSlash : c ≠ backslash)
    (hControl : ¬c.toNat < 0x20) (h : Reads (readText start rest) value left) :
    Reads (readText start (c :: rest)) (c :: value) left := by
  obtain ⟨hShorter, hRead⟩ := h
  refine ⟨by simp only [List.length_cons]; omega, ?_⟩
  have hQuote : (c == '\x22') = false := by simpa [doubleQuote] using hQuote
  have hSlash : (c == '\x5c') = false := by simpa [backslash] using hSlash
  rw [readText.eq_def]
  simp only [hQuote, hSlash, hControl, hRead, Bool.false_eq_true, if_false]
  rfl

/-- A unit that is no first half of a pair is read on its own. -/
theorem reads_unit {n : Nat} (hUnit : n < 0x10000) (hHigh : isHighSurrogate n = false)
    (hRest : rest ≠ []) (h : Reads (readText start rest) value left) :
    Reads (readText start (unitEscape n ++ rest)) (unitChar n :: value) left := by
  have hText : unitEscape n ++ rest = '\x5c' :: 'u' :: (hexDigits 4 n ++ rest) := rfl
  obtain ⟨hShorter, hRead⟩ := h
  rw [hText]
  refine ⟨by simp only [List.length_cons, List.length_append]; omega, ?_⟩
  rw [readText.eq_def]
  simp [unit?_hexDigits hUnit hRest, hHigh, drop_hexDigits, hRead]
  rfl

/-- The halves of a pair. -/
theorem secondHalf?_unitEscape {m : Nat} (hUnit : m < 0x10000) (hLow : isLowSurrogate m = true)
    (hRest : rest ≠ []) : secondHalf? (unitEscape m ++ rest) = .ok (some m) := by
  have hText : unitEscape m ++ rest = '\x5c' :: 'u' :: (hexDigits 4 m ++ rest) := rfl
  have hLength : ¬(hexDigits 4 m ++ rest).length ≤ 4 := by
    have := List.length_pos_iff.mpr hRest
    rw [List.length_append, length_hexDigits]
    omega
  rw [hText, secondHalf?]
  simp only [hLength, if_false, unit?_hexDigits hUnit hRest, hLow, if_true]

/-- The two units of a pair are read as one character. -/
theorem reads_pair {n m : Nat} (hFirst : n < 0x10000) (hHigh : isHighSurrogate n = true)
    (hSecond : m < 0x10000) (hLow : isLowSurrogate m = true) (hRest : rest ≠ [])
    (h : Reads (readText start rest) value left) :
    Reads (readText start (unitEscape n ++ (unitEscape m ++ rest)))
      (Char.ofNat (0x10000 + (n - 0xd800) * 0x400 + (m - 0xdc00)) :: value) left := by
  have hText : unitEscape n ++ (unitEscape m ++ rest) =
      '\x5c' :: 'u' :: (hexDigits 4 n ++ (unitEscape m ++ rest)) := rfl
  have hHalf := secondHalf?_unitEscape hSecond hLow hRest
  have hUnit : unit? (hexDigits 4 n ++ (unitEscape m ++ rest)) = some n :=
    unit?_hexDigits hFirst (List.cons_ne_nil _ _)
  obtain ⟨hShorter, hRead⟩ := h
  have hLeft : readText start ((hexDigits 4 n ++ (unitEscape m ++ rest)).drop 10) =
      .ok ⟨value, left, hShorter⟩ := hRead
  rw [hText]
  refine ⟨by simp only [List.length_cons, List.length_append]; omega, ?_⟩
  rw [readText.eq_def]
  simp [hUnit, hHigh, drop_hexDigits, hHalf, hLeft]
  rfl

/-- A character above U+FFFF is the pair of its units. -/
theorem reads_supplementary {c : Char} (hSize : ¬c.toNat < 0x10000) (hRest : rest ≠ [])
    (h : Reads (readText start rest) value left) :
    Reads (readText start (unitEscape (0xd800 + (c.toNat - 0x10000) / 0x400) ++
      (unitEscape (0xdc00 + (c.toNat - 0x10000) % 0x400) ++ rest))) (c :: value) left := by
  have hValid : c.toNat < 0xd800 ∨ (0xdfff < c.toNat ∧ c.toNat < 0x110000) := c.valid
  have hHigh : isHighSurrogate (0xd800 + (c.toNat - 0x10000) / 0x400) = true := by
    simp only [isHighSurrogate, Bool.and_eq_true, decide_eq_true_eq]
    omega
  have hLow : isLowSurrogate (0xdc00 + (c.toNat - 0x10000) % 0x400) = true := by
    simp only [isLowSurrogate, Bool.and_eq_true, decide_eq_true_eq]
    omega
  have hPair := reads_pair (by omega) hHigh (by omega) hLow hRest h
  have hCode : 0x10000 + (0xd800 + (c.toNat - 0x10000) / 0x400 - 0xd800) * 0x400 +
      (0xdc00 + (c.toNat - 0x10000) % 0x400 - 0xdc00) = c.toNat := by
    omega
  rwa [hCode, Char.ofNat_toNat] at hPair

/-- A character has a short escape, stands as it is, or is written as one or two units. -/
inductive Written (c : Char) : List Char → Prop where
  | short {e : Char} (hEscape : shortEscape? e = some c) : Written c [backslash, e]
  | plain (hQuote : c ≠ doubleQuote) (hSlash : c ≠ backslash) (hControl : ¬c.toNat < 0x20) :
      Written c [c]
  | unit (hSize : c.toNat < 0x10000) : Written c (unitEscape c.toNat)
  | pair (hSize : ¬c.toNat < 0x10000) :
      Written c (unitEscape (0xd800 + (c.toNat - 0x10000) / 0x400) ++
        unitEscape (0xdc00 + (c.toNat - 0x10000) % 0x400))

theorem written_textChar (c : Char) : Written c (textChar c) := by
  have hShort : ∀ d e, (c == d) = true → shortEscape? e = some d → Written c [backslash, e] := by
    intro d e hSame hEscape
    rw [beq_iff_eq] at hSame
    exact .short (hSame ▸ hEscape)
  unfold textChar
  split_ifs with hOwn hLine hReturn hTab hBack hFeed hPlain hSize
  · rcases Bool.or_eq_true_iff.mp hOwn with hQuote | hSlash
    · exact .short (beq_iff_eq.mp hQuote ▸ rfl)
    · exact .short (beq_iff_eq.mp hSlash ▸ rfl)
  · exact hShort _ _ hLine rfl
  · exact hShort _ _ hReturn rfl
  · exact hShort _ _ hTab rfl
  · exact hShort _ _ hBack rfl
  · exact hShort _ _ hFeed rfl
  · obtain ⟨hQuote, hSlash⟩ : c ≠ doubleQuote ∧ c ≠ backslash := by simpa using hOwn
    simp only [Bool.and_eq_true, decide_eq_true_eq] at hPlain
    exact .plain hQuote hSlash (Nat.not_lt.mpr hPlain.1)
  · exact .unit hSize
  · exact .pair hSize

/-- What is written of a character is read as this character. -/
theorem reads_textChar (c : Char) (hRest : rest ≠ []) (h : Reads (readText start rest) value left) :
    Reads (readText start (textChar c ++ rest)) (c :: value) left := by
  have hWritten := written_textChar c
  generalize textChar c = cs at hWritten ⊢
  cases hWritten with
  | short hEscape => exact reads_shortEscape hEscape h
  | plain hQuote hSlash hControl => exact reads_plain hQuote hSlash hControl h
  | unit hSize =>
    have hUnit := reads_unit hSize (char_not_surrogate c).1 hRest h
    rwa [unitChar_toNat] at hUnit
  | pair hSize =>
    rw [List.append_assoc]
    exact reads_supplementary hSize hRest h

-- ---------------------------------------------------------------------------
-- Literals
-- ---------------------------------------------------------------------------

/-- What is written of a text is read as the text, up to the closing quote. -/
theorem reads_text (start cs rest : List Char) :
    Reads (readText start (cs.flatMap textChar ++ doubleQuote :: rest)) cs rest := by
  induction cs with
  | nil =>
    rw [List.flatMap_nil, List.nil_append]
    refine ⟨Nat.lt_succ_self _, ?_⟩
    rw [readText.eq_def]
    rfl
  | cons c cs ih =>
    rw [List.flatMap_cons, List.append_assoc]
    exact reads_textChar c (by simp) ih

theorem toList_textLiteral (s : String) :
    (textLiteral s).toList = doubleQuote :: (s.toList.flatMap textChar ++ [doubleQuote]) :=
  String.toList_ofList

end ClientGen.Document.Json
