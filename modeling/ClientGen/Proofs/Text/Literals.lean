import ClientGen.Proofs.Document.Json.Texts
import ClientGen.Text.Quoted

/-!
# String literals read back

Between the quotes of a literal stands what shows when it is printed. For all else there is a
backslash with a letter, or with a letter and the hexadecimal digits of the code. This
module reads a literal as the language of the generated code does (`denoted?`), and shows
that the literal of a text denotes the text.

Of the language no more is read than is written: the escapes of quotes, of the backslash and of
three blanks, and codes of two, four and eight digits. Everything else is refused.

Main results:

* `readLiteral_quoteChar` — what is written for a character is read as the character.
* `denoted?_quoted` — the literal of a text denotes the text.
-/

namespace ClientGen.Text

open ClientGen.Document.Json

-- ---------------------------------------------------------------------------
-- Reading literals
-- ---------------------------------------------------------------------------

/-- Where the reader of a literal is. -/
inductive Spot where
  | text
  /-- behind a backslash -/
  | escape
  /-- before a digit of a code, with so many digits after it and the value of those read -/
  | code (more value : Nat)

/-- The number of digits after the first one of the code that a letter announces. -/
def furtherDigits? (c : Char) : Option Nat :=
  if c == 'x' then some 1 else if c == 'u' then some 3 else if c == 'U' then some 7 else none

/-- The character that any other character stands for behind a backslash. -/
def escaped? (c : Char) : Option Char :=
  if c == 'n' then some '\n'
  else if c == 'r' then some '\r'
  else if c == 't' then some '\t'
  else if c == singleQuote || c == doubleQuote || c == backslash then some c
  else none

/-- The character with a code. -/
def charOf? (code : Nat) : Option Char := if code.isValidChar then some (.ofNat code) else none

/-- Read the rest of a literal, which ends with its quote. -/
def readLiteral (quote : Char) : Spot → List Char → Option (List Char)
  | _, [] => none
  | .text, c :: rest =>
    if c == quote then (if rest.isEmpty then some [] else none)
    else if c == backslash then readLiteral quote .escape rest
    else if isPrintable c then (readLiteral quote .text rest).map (c :: ·)
    else none
  | .escape, c :: rest =>
    match furtherDigits? c with
    | some more => readLiteral quote (.code more 0) rest
    | none => (escaped? c).bind fun d => (readLiteral quote .text rest).map (d :: ·)
  | .code more value, c :: rest =>
    (hexDigit? c).bind fun digit =>
      match more with
      | 0 => (charOf? (16 * value + digit)).bind fun d => (readLiteral quote .text rest).map (d :: ·)
      | more + 1 => readLiteral quote (.code more (16 * value + digit)) rest

/-- The text that a literal denotes. -/
def denoted? (literal : String) : Option String :=
  match literal.toList with
  | quote :: rest =>
    if quote == singleQuote || quote == doubleQuote then
      (readLiteral quote .text rest).map String.ofList
    else none
  | [] => none

-- ---------------------------------------------------------------------------
-- Codes
-- ---------------------------------------------------------------------------

theorem charOf?_toNat (c : Char) : charOf? c.toNat = some c := by
  have hValid : c.toNat.isValidChar := c.valid
  rw [charOf?, if_pos hValid, Char.ofNat_toNat]

variable {quote : Char}

/-- A digit moves the value up and is added to it. -/
theorem readLiteral_digit (more value n : Nat) (rest : List Char) :
    readLiteral quote (.code (more + 1) value) ((n % 16).digitChar :: rest) =
      readLiteral quote (.code more (16 * value + n % 16)) rest := by
  rw [readLiteral, hexDigit?_digitChar (Nat.mod_lt n (by decide)), Option.bind_some]

theorem readLiteral_lastDigit (value n : Nat) (rest : List Char) :
    readLiteral quote (.code 0 value) ((n % 16).digitChar :: rest) =
      (charOf? (16 * value + n % 16)).bind fun d => (readLiteral quote .text rest).map (d :: ·) := by
  rw [readLiteral, hexDigit?_digitChar (Nat.mod_lt n (by decide)), Option.bind_some]

variable (quote) in
/-- Digits are read as the number that they were written for. -/
theorem readLiteral_hexDigits (width more n : Nat) (rest : List Char) :
    readLiteral quote (.code (width + more) 0) (hexDigits width n ++ rest) =
      readLiteral quote (.code more (n % 16 ^ width)) rest := by
  induction width generalizing more n rest with
  | zero => simp [hexDigits, Nat.mod_one]
  | succ width ih =>
    have hValue : 16 * (n / 16 % 16 ^ width) + n % 16 = n % 16 ^ (width + 1) := by
      rw [Nat.pow_succ', Nat.mod_mul, Nat.add_comm]
    rw [hexDigits, List.append_assoc, List.singleton_append, Nat.add_right_comm, Nat.add_assoc, ih,
      readLiteral_digit, hValue]

/-- A code with enough digits is read as its character. -/
theorem readLiteral_code {c : Char} {width : Nat} (h : c.toNat < 16 ^ (width + 1)) (rest : List Char) :
    readLiteral quote (.code width 0) (hexDigits (width + 1) c.toNat ++ rest) =
      (readLiteral quote .text rest).map (c :: ·) := by
  have hUpper : c.toNat / 16 % 16 ^ width = c.toNat / 16 := by
    refine Nat.mod_eq_of_lt ?_
    rw [Nat.pow_succ] at h
    exact Nat.div_lt_of_lt_mul (by omega)
  have hDigits := readLiteral_hexDigits quote width 0 (c.toNat / 16)
    ((c.toNat % 16).digitChar :: rest)
  rw [Nat.add_zero, hUpper] at hDigits
  rw [hexDigits, List.append_assoc, List.singleton_append, hDigits, readLiteral_lastDigit,
    Nat.div_add_mod, charOf?_toNat, Option.bind_some]

-- ---------------------------------------------------------------------------
-- Texts
-- ---------------------------------------------------------------------------

/-- The two quotes that literals are written in. -/
def IsQuote (c : Char) : Prop := c = singleQuote ∨ c = doubleQuote

theorem readLiteral_backslash (hQuote : IsQuote quote) (rest : List Char) :
    readLiteral quote .text (backslash :: rest) = readLiteral quote .escape rest := by
  rcases hQuote with rfl | rfl <;> rfl

theorem readLiteral_escaped {c d : Char} (hQuote : IsQuote quote) (hCode : furtherDigits? c = none)
    (hEscaped : escaped? c = some d) (rest : List Char) :
    readLiteral quote .text (backslash :: c :: rest) = (readLiteral quote .text rest).map (d :: ·) := by
  rw [readLiteral_backslash hQuote, readLiteral, hCode, hEscaped]
  rfl

theorem readLiteral_announced {letter c : Char} {more : Nat} (hQuote : IsQuote quote)
    (hCode : furtherDigits? letter = some more) (h : c.toNat < 16 ^ (more + 1)) (rest : List Char) :
    readLiteral quote .text (backslash :: letter :: (hexDigits (more + 1) c.toNat ++ rest)) =
      (readLiteral quote .text rest).map (c :: ·) := by
  rw [readLiteral_backslash hQuote, readLiteral, hCode]
  exact readLiteral_code h rest

/-- **Characters.** What is written for a character is read as the character. -/
theorem readLiteral_quoteChar (hQuote : IsQuote quote) (c : Char) (rest : List Char) :
    readLiteral quote .text (quoteChar quote c ++ rest) =
      (readLiteral quote .text rest).map (c :: ·) := by
  rw [quoteChar]
  by_cases hSelf : (c == quote || c == backslash) = true
  · rw [if_pos hSelf]
    have hMark : IsQuote c ∨ c = backslash := by
      rcases Bool.or_eq_true_iff.mp hSelf with hSame | hSame
      · exact Or.inl (beq_iff_eq.mp hSame ▸ hQuote)
      · exact Or.inr (beq_iff_eq.mp hSame)
    rcases hMark with (rfl | rfl) | rfl
    all_goals exact readLiteral_escaped hQuote rfl rfl rest
  rw [if_neg hSelf]
  by_cases hNewline : (c == '\n') = true
  · rw [if_pos hNewline, beq_iff_eq.mp hNewline]
    exact readLiteral_escaped hQuote rfl rfl rest
  rw [if_neg hNewline]
  by_cases hReturn : (c == '\r') = true
  · rw [if_pos hReturn, beq_iff_eq.mp hReturn]
    exact readLiteral_escaped hQuote rfl rfl rest
  rw [if_neg hReturn]
  by_cases hTab : (c == '\t') = true
  · rw [if_pos hTab, beq_iff_eq.mp hTab]
    exact readLiteral_escaped hQuote rfl rfl rest
  rw [if_neg hTab]
  by_cases hPrintable : isPrintable c = true
  · obtain ⟨hNoQuote, hNoBackslash⟩ := Bool.or_eq_false_iff.mp (Bool.not_eq_true _ ▸ hSelf)
    rw [if_pos hPrintable, List.singleton_append, readLiteral, hNoQuote, if_neg Bool.false_ne_true,
      hNoBackslash, if_neg Bool.false_ne_true, if_pos hPrintable]
  rw [if_neg hPrintable]
  by_cases hShort : c.toNat < 0x100
  · rw [if_pos hShort]
    exact readLiteral_announced hQuote rfl hShort rest
  rw [if_neg hShort]
  by_cases hMiddle : c.toNat < 0x10000
  · rw [if_pos hMiddle]
    exact readLiteral_announced hQuote rfl hMiddle rest
  rw [if_neg hMiddle]
  have hLong : c.toNat < 0x110000 := by
    have hValid : c.toNat < 0xd800 ∨ (0xdfff < c.toNat ∧ c.toNat < 0x110000) := c.valid
    omega
  exact readLiteral_announced hQuote rfl (Nat.lt_trans hLong (by decide)) rest

theorem readLiteral_quoteChars (hQuote : IsQuote quote) (cs : List Char) :
    readLiteral quote .text (cs.flatMap (quoteChar quote) ++ [quote]) = some cs := by
  induction cs with
  | nil =>
    rcases hQuote with rfl | rfl <;> rfl
  | cons c cs ih =>
    rw [List.flatMap_cons, List.append_assoc, readLiteral_quoteChar hQuote, ih]
    rfl

theorem isQuote_quoteFor (cs : List Char) : IsQuote (quoteFor cs) := by
  unfold quoteFor
  split
  · exact Or.inr rfl
  · exact Or.inl rfl

/-- **Literals.** The literal of a text denotes the text. -/
theorem denoted?_quoted (text : String) : denoted? (quoted text) = some text := by
  have hQuote := isQuote_quoteFor text.toList
  have hMark : (quoteFor text.toList == singleQuote || quoteFor text.toList == doubleQuote) = true := by
    rcases hQuote with h | h <;> rw [h] <;> rfl
  rw [denoted?, quoted, String.toList_ofList, List.cons_append]
  dsimp only
  rw [hMark, if_pos rfl, readLiteral_quoteChars hQuote, Option.map_some, String.ofList_toList]

end ClientGen.Text
