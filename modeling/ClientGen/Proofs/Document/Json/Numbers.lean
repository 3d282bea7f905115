import ClientGen.Document.Json.Reader
import ClientGen.Proofs.Number.ReadBack

/-!
# Numbers read back

What the writer makes of an integer or a double is read as the same number again. A
number ends where a value ends in a collection or in the text, so the digits that are
read are those that were written; and a numeral with a point or an exponent denotes
what the shortest numeral of the double denotes.

Main results:

* `isNumber_int`, `isNumber_finite` — integers and finite doubles are written as numerals of
  themselves.
* `IsNumber.reads` — the text of a number is read as the number.
* `reads_word` — a word with a fixed meaning is read as its value.
-/

namespace ClientGen.Document.Json

open ClientGen.Double

/-- The reader took the value and left the rest. -/
def Reads {α : Type} {n : Nat} (outcome : Except Failure (Taken α n)) (value : α)
    (rest : List Char) : Prop :=
  ∃ h, outcome = .ok ⟨value, rest, h⟩

theorem Reads.value_eq {α : Type} {n : Nat} {outcome : Except Failure (Taken α n)} {v w : α}
    {rest rest' : List Char} (h : Reads outcome v rest) (h' : Reads outcome w rest') : v = w := by
  obtain ⟨_, rfl⟩ := h
  obtain ⟨_, hSame⟩ := h'
  cases hSame
  rfl

/-- The same for a reader that may find nothing. -/
def Finds {n : Nat} (outcome : Option (Taken Value n)) (value : Value) (rest : List Char) : Prop :=
  ∃ h, outcome = some ⟨value, rest, h⟩

/-- What follows is the end of the text or of a value inside a collection. -/
def Ended (rest : List Char) : Prop := ∀ c ∈ rest.head?, c = ',' ∨ c = ']' ∨ c = '\x7d'

/-- A character that may follow a value belongs to no number. -/
theorem Ended.not_number {rest : List Char} (h : Ended rest) :
    ∀ c ∈ rest.head?, c.isDigit = false ∧ c ≠ '.' ∧ c ≠ 'e' ∧ c ≠ 'E' := by
  intro c hc
  rcases h c hc with rfl | rfl | rfl <;> decide

-- ---------------------------------------------------------------------------
-- Parts of numbers
-- ---------------------------------------------------------------------------

/-- The characters are digits. -/
def AllDigits (cs : List Char) : Prop := ∀ c ∈ cs, c.isDigit = true

theorem AllDigits.append {cs ds : List Char} (hcs : AllDigits cs) (hds : AllDigits ds) :
    AllDigits (cs ++ ds) :=
  List.forall_mem_append.mpr ⟨hcs, hds⟩

theorem allDigits_zeros (n : Nat) : AllDigits (List.replicate n '0') := by
  intro c hc
  rw [(List.mem_replicate.mp hc).2]
  rfl

theorem allDigits_toDigits (n : Nat) : AllDigits (Nat.toDigits 10 n) :=
  fun _ hc => Nat.isDigit_of_mem_toDigits (by decide) (by decide) hc

theorem takeWhile_digits {digits rest : List Char} (h : AllDigits digits)
    (hEnd : ∀ c ∈ rest.head?, c.isDigit = false) :
    (digits ++ rest).takeWhile Char.isDigit = digits := by
  rw [List.takeWhile_append_of_pos h]
  cases rest with
  | nil => simp
  | cons c rest => simp [hEnd c rfl]

/-- Digits without a needless zero in front. -/
def IsWhole (digits : List Char) : Prop :=
  digits = ['0'] ∨ ∃ c more, digits = c :: more ∧ c ≠ '0' ∧ AllDigits digits

theorem IsWhole.allDigits {digits : List Char} (h : IsWhole digits) : AllDigits digits := by
  rcases h with rfl | ⟨_, _, -, -, h⟩
  · exact allDigits_zeros 1
  · exact h

theorem IsWhole.ne_nil {digits : List Char} (h : IsWhole digits) : digits ≠ [] := by
  rcases h with rfl | ⟨_, _, rfl, -, -⟩ <;> exact List.cons_ne_nil _ _

theorem integerDigits_append {digits rest : List Char} (h : IsWhole digits)
    (hEnd : ∀ c ∈ rest.head?, c.isDigit = false) : integerDigits (digits ++ rest) = digits := by
  rcases h with rfl | ⟨c, more, rfl, hZero, hDigits⟩
  · rfl
  · have hHead : (c == '0') = false := by simpa using hZero
    rw [List.cons_append, integerDigits, hHead, if_neg Bool.false_ne_true, ← List.cons_append]
    exact takeWhile_digits hDigits hEnd

/-- The digits of a positive number start with no zero. -/
theorem toDigits_head {n : Nat} (h : n ≠ 0) : ∃ c more, Nat.toDigits 10 n = c :: more ∧ c ≠ '0' := by
  induction n using Nat.strong_induction_on with
  | h n ih =>
    rw [Nat.toDigits_eq_if (by decide)]
    split
    · rename_i hSmall
      have hFirst : ∀ j : Fin 10, j.val ≠ 0 → j.val.digitChar ≠ '0' := by decide
      exact ⟨n.digitChar, [], rfl, hFirst ⟨n, hSmall⟩ h⟩
    · obtain ⟨c, more, hDigits, hc⟩ := ih (n / 10) (by omega) (by omega)
      exact ⟨c, more ++ [(n % 10).digitChar], by rw [hDigits]; rfl, hc⟩

theorem isWhole_toDigits (n : Nat) : IsWhole (Nat.toDigits 10 n) := by
  by_cases hZero : n = 0
  · subst hZero
    exact Or.inl rfl
  · obtain ⟨c, more, hDigits, hc⟩ := toDigits_head hZero
    exact Or.inr ⟨c, more, hDigits, hc, allDigits_toDigits n⟩

theorem digitsValue_eq (digits : List Char) : digitsValue digits = Nat.ofDigitChars 10 digits 0 := rfl

@[simp] theorem digitsValue_toDigits (n : Nat) : digitsValue (Nat.toDigits 10 n) = n :=
  Nat.ofDigitChars_ten_toDigits

/-- Zeros in front of digits do not count. -/
theorem digitsValue_zeros_append (n : Nat) (digits : List Char) :
    digitsValue (List.replicate n '0' ++ digits) = digitsValue digits := by
  rw [digitsValue_eq, Nat.ofDigitChars_append, Nat.ofDigitChars_replicate_zero, Nat.mul_zero]
  rfl

/-- Zeros after digits are powers of ten. -/
theorem digitsValue_append_zeros (digits : List Char) (n : Nat) :
    digitsValue (digits ++ List.replicate n '0') = digitsValue digits * 10 ^ n := by
  rw [digitsValue_eq, Nat.ofDigitChars_append, Nat.ofDigitChars_replicate_zero, Nat.mul_comm]
  rfl

theorem fractionDigits_point {digits rest : List Char} (h : AllDigits digits)
    (hEnd : ∀ c ∈ rest.head?, c.isDigit = false) :
    fractionDigits ('.' :: (digits ++ rest)) = digits :=
  takeWhile_digits h hEnd

theorem fractionDigits_none {rest : List Char} (h : ∀ c ∈ rest.head?, c ≠ '.') :
    fractionDigits rest = [] := by
  unfold fractionDigits
  split
  · exact absurd rfl (h _ rfl)
  · rfl

theorem exponent?_none {rest : List Char} (h : ∀ c ∈ rest.head?, c ≠ 'e' ∧ c ≠ 'E') :
    exponent? rest = none := by
  unfold exponent?
  split
  · rename_i c rest
    obtain ⟨hSmall, hLarge⟩ := h c rfl
    simp [hSmall, hLarge]
  · rfl

/-- The sign of an exponent. -/
def exponentSign (negative : Bool) : Char := if negative then '-' else '+'

theorem exponent?_signed {negative : Bool} {digits rest : List Char} (h : AllDigits digits)
    (hSome : digits ≠ []) (hEnd : ∀ c ∈ rest.head?, c.isDigit = false) :
    exponent? ('e' :: exponentSign negative :: (digits ++ rest)) = some ⟨negative, true, digits⟩ := by
  have hDigits := takeWhile_digits h hEnd
  unfold exponent?
  cases negative <;> simp [exponentSign, hDigits]

-- ---------------------------------------------------------------------------
-- Numerals
-- ---------------------------------------------------------------------------

/-- The sign of a number. -/
def signChars (negative : Bool) : List Char := if negative then ['-'] else []

/-- A fraction with its point, unless it has no digits. -/
def pointChars : List Char → List Char
  | [] => []
  | d :: more => '.' :: d :: more

/-- An exponent with its sign. -/
def exponentChars : Option (Bool × List Char) → List Char
  | none => []
  | some (negative, digits) => 'e' :: exponentSign negative :: digits

/-- The number that an exponent stands for. -/
def exponentValue : Option (Bool × List Char) → Int
  | none => 0
  | some (negative, digits) => if negative then -(digitsValue digits : Int) else digitsValue digits

/-- A numeral without a fraction and without an exponent is an integer; any other one is a double. -/
def numeralValue (negative : Bool) (whole fraction : List Char)
    (exponent : Option (Bool × List Char)) : Value :=
  if fraction = [] ∧ exponent = none then
    .int (if negative then -(digitsValue whole : Int) else digitsValue whole)
  else
    .float (.ofDecimal negative
      ⟨digitsValue (whole ++ fraction), exponentValue exponent - (fraction.length : Int)⟩)

theorem drop_append_length {α : Type} (xs ys : List α) : (xs ++ ys).drop xs.length = ys :=
  List.drop_left

/-- What follows a fraction is no digit and no point. -/
theorem not_digit_of_exponent (exponent : Option (Bool × List Char)) {rest : List Char}
    (hRest : Ended rest) :
    ∀ c ∈ (exponentChars exponent ++ rest).head?, c.isDigit = false ∧ c ≠ '.' := by
  intro c hc
  cases exponent with
  | none =>
    obtain ⟨hDigit, hPoint, -⟩ := hRest.not_number c hc
    exact ⟨hDigit, hPoint⟩
  | some e =>
    cases Option.mem_def.mp hc
    decide

/-- The fraction is read up to what follows it. -/
theorem fractionDigits_pointChars {fraction rest : List Char} (h : AllDigits fraction)
    (hEnd : ∀ c ∈ rest.head?, c.isDigit = false ∧ c ≠ '.') :
    fractionDigits (pointChars fraction ++ rest) = fraction ∧
      (if fraction.isEmpty = true then pointChars fraction ++ rest
        else (pointChars fraction ++ rest).drop (fraction.length + 1)) = rest := by
  cases fraction with
  | nil => exact ⟨fractionDigits_none fun c hc => (hEnd c hc).2, rfl⟩
  | cons d more =>
    exact ⟨fractionDigits_point h fun c hc => (hEnd c hc).1, drop_append_length ('.' :: d :: more) rest⟩

/-- No digit follows the integer part. -/
theorem not_digit_of_point (fraction : List Char) {rest : List Char}
    (hEnd : ∀ c ∈ rest.head?, c.isDigit = false) :
    ∀ c ∈ (pointChars fraction ++ rest).head?, c.isDigit = false := by
  intro c hc
  cases fraction with
  | nil => exact hEnd c hc
  | cons d more =>
    cases Option.mem_def.mp hc
    rfl

/-- The text of a numeral. -/
def numeralChars (negative : Bool) (whole fraction : List Char)
    (exponent : Option (Bool × List Char)) : List Char :=
  signChars negative ++ (whole ++ (pointChars fraction ++ exponentChars exponent))

/-- The parts of a numeral have the form that the reader looks for. -/
structure IsNumeral (whole fraction : List Char) (exponent : Option (Bool × List Char)) : Prop where
  whole : IsWhole whole
  fraction : AllDigits fraction
  exponent : ∀ e ∈ exponent, AllDigits e.2 ∧ e.2 ≠ []

/-- The sign is read off, and the integer part stands after it. -/
theorem sign_read (negative : Bool) {whole : List Char} (rest : List Char) (h : IsWhole whole) :
    ((signChars negative ++ (whole ++ rest)).head? == some '-') = negative ∧
      (if negative = true then (signChars negative ++ (whole ++ rest)).drop 1
        else signChars negative ++ (whole ++ rest)) = whole ++ rest := by
  cases negative with
  | true => exact ⟨rfl, rfl⟩
  | false =>
    obtain ⟨c, more, rfl⟩ := List.exists_cons_of_ne_nil h.ne_nil
    have hDigit : c.isDigit = true := h.allDigits c List.mem_cons_self
    refine ⟨?_, rfl⟩
    show (some c == some '-') = false
    rw [beq_eq_false_iff_ne]
    rintro ⟨⟩
    cases hDigit

/-- A numeral that nothing of a number follows is read as its value. -/
theorem finds_numeral {negative : Bool} {whole fraction : List Char}
    {exponent : Option (Bool × List Char)} {rest : List Char}
    (h : IsNumeral whole fraction exponent) (hRest : Ended rest) :
    Finds (readNumber? (numeralChars negative whole fraction exponent ++ rest))
      (numeralValue negative whole fraction exponent) rest := by
  obtain ⟨hWhole, hFraction, hExponent⟩ := h
  have hShorter : rest.length < (numeralChars negative whole fraction exponent ++ rest).length := by
    have hSome : 0 < whole.length := List.length_pos_iff.mpr hWhole.ne_nil
    simp only [numeralChars, List.length_append]
    omega
  have hText : numeralChars negative whole fraction exponent ++ rest =
      signChars negative ++ (whole ++ (pointChars fraction ++ (exponentChars exponent ++ rest))) := by
    simp only [numeralChars, List.append_assoc]
  obtain ⟨hNegative, hBody⟩ :=
    sign_read negative (pointChars fraction ++ (exponentChars exponent ++ rest)) hWhole
  rw [← hText] at hNegative hBody
  generalize numeralChars negative whole fraction exponent ++ rest = cs at *
  have hAfter := not_digit_of_exponent exponent hRest
  have hDigits :=
    integerDigits_append hWhole (not_digit_of_point fraction fun c hc => (hAfter c hc).1)
  obtain ⟨hPoint, hAfterPoint⟩ := fractionDigits_pointChars hFraction hAfter
  have hSome : whole.isEmpty = false := by simpa using hWhole.ne_nil
  unfold readNumber?
  simp only [hNegative, hBody, hDigits, drop_append_length, hPoint, hAfterPoint, hSome]
  cases exponent with
  | none =>
    have hNone : exponent? (exponentChars none ++ rest) = none :=
      exponent?_none fun c hc => (hRest.not_number c hc).2.2
    simp only [hNone, numeralValue, exponentValue, Int.zero_sub]
    cases fraction with
    | nil => exact ⟨hShorter, dif_pos hShorter⟩
    | cons d more => exact ⟨hShorter, dif_pos hShorter⟩
  | some e =>
    obtain ⟨hAll, hSome⟩ := hExponent e rfl
    have hSigned : exponent? (exponentChars (some e) ++ rest) = some ⟨e.1, true, e.2⟩ :=
      exponent?_signed hAll hSome fun c hc => (hRest.not_number c hc).1
    have hRestLeft : (exponentChars (some e) ++ rest).drop (e.2.length + 2) = rest :=
      drop_append_length (exponentChars (some e)) rest
    simp only [hSigned, numeralValue, if_true, hRestLeft, reduceCtorEq, and_false, if_false]
    exact ⟨hShorter, dif_pos hShorter⟩

-- ---------------------------------------------------------------------------
-- Integers and doubles
-- ---------------------------------------------------------------------------

theorem toList_toString_nat (n : Nat) : (toString n).toList = Nat.toDigits 10 n := Nat.toList_repr

theorem toList_toString_int (n : Int) :
    (toString n).toList = signChars (n < 0) ++ Nat.toDigits 10 n.natAbs := by
  rw [Int.toString_eq_repr, Int.repr_eq_if]
  by_cases hNegative : n < 0
  · have hSize : (-n).toNat = n.natAbs := by omega
    rw [if_neg (by omega), String.toList_append, Nat.toList_repr, hSize, decide_eq_true hNegative]
    rfl
  · have hSize : n.toNat = n.natAbs := by omega
    rw [if_pos (by omega), Nat.toList_repr, hSize, decide_eq_false hNegative]
    rfl

/-- The text is a numeral that is read as the value. -/
def IsNumber (text : String) (v : Value) : Prop :=
  ∃ negative whole fraction exponent, IsNumeral whole fraction exponent ∧
    text.toList = numeralChars negative whole fraction exponent ∧
    numeralValue negative whole fraction exponent = v

/-- The text of an integer is a numeral of it. -/
theorem isNumber_int (n : Int) : IsNumber (toString n) (.int n) := by
  refine ⟨n < 0, Nat.toDigits 10 n.natAbs, [], none, ⟨isWhole_toDigits _, nofun, nofun⟩, ?_, ?_⟩
  · rw [toList_toString_int]
    simp [numeralChars, pointChars, exponentChars]
  · simp only [numeralValue, digitsValue_toDigits, and_self, if_true, decide_eq_true_eq]
    congr 1
    split <;> omega

/-- The numeral with these parts is a double. -/
theorem numeralValue_float {whole fraction : List Char} {exponent : Option (Bool × List Char)}
    (hParts : fraction ≠ [] ∨ exponent ≠ none) {d : Decimal}
    (hDigits : digitsValue (whole ++ fraction) = d.digits)
    (hExponent : exponentValue exponent - (fraction.length : Int) = d.exponent) (negative : Bool) :
    numeralValue negative whole fraction exponent = .float (.ofDecimal negative d) := by
  have hFloat : ¬(fraction = [] ∧ exponent = none) := by tauto
  rw [numeralValue, if_neg hFloat, hDigits, hExponent]

theorem ofDecimal_zero (negative : Bool) (e : Int) :
    ofDecimal negative ⟨0, e⟩ = .finite negative .zero :=
  rfl

theorem decimalText_zero (e : Int) : decimalText ⟨0, e⟩ = "0.0" := rfl

theorem toList_zeros (n : Nat) : (zeros n).toList = List.replicate n '0' := String.toList_ofList

/-- The text is a numeral that is read as the decimal numeral. -/
def Denotes (text : String) (d : Decimal) : Prop :=
  ∃ whole fraction exponent, IsNumeral whole fraction exponent ∧
    text.toList = whole ++ (pointChars fraction ++ exponentChars exponent) ∧
    ∀ negative, numeralValue negative whole fraction exponent = .float (.ofDecimal negative d)

theorem denotes_zero (e : Int) : Denotes (decimalText ⟨0, e⟩) ⟨0, e⟩ := by
  refine ⟨['0'], ['0'], none, ⟨Or.inl rfl, allDigits_zeros 1, nofun⟩, ?_, ?_⟩
  · rw [decimalText_zero]
    decide
  · intro negative
    rw [ofDecimal_zero]
    exact congrArg Value.float (ofDecimal_zero negative _)

section Layouts

variable {n : Nat}

theorem length_toString (n : Nat) : (toString n).length = (Nat.toDigits 10 n).length := by
  rw [← String.length_toList, toList_toString_nat]

/-- Some of the first digits are a whole number. -/
theorem isWhole_take (hn : n ≠ 0) {place : Nat} (hPlace : place ≠ 0) :
    IsWhole ((Nat.toDigits 10 n).take place) := by
  obtain ⟨c, more, hDigits, hc⟩ := toDigits_head hn
  obtain ⟨k, rfl⟩ := Nat.exists_eq_succ_of_ne_zero hPlace
  refine Or.inr ⟨c, more.take k, by rw [hDigits]; rfl, hc, ?_⟩
  intro d hd
  exact allDigits_toDigits n d (List.mem_of_mem_take hd)

theorem pointChars_of_ne_nil {fraction : List Char} (h : fraction ≠ []) :
    pointChars fraction = '.' :: fraction := by
  obtain ⟨c, more, rfl⟩ := List.exists_cons_of_ne_nil h
  rfl

/-- All digits stand after the point. -/
theorem denotes_small {k : Nat} {e : Int} (he : (k : Int) + (Nat.toDigits 10 n).length = -e) :
    Denotes ("0." ++ zeros k ++ toString n) ⟨n, e⟩ := by
  have hZeros : '0' :: (List.replicate k '0' ++ Nat.toDigits 10 n) =
      List.replicate (k + 1) '0' ++ Nat.toDigits 10 n := rfl
  have hSome : List.replicate k '0' ++ Nat.toDigits 10 n ≠ [] := by
    simp [(isWhole_toDigits n).ne_nil]
  refine ⟨['0'], List.replicate k '0' ++ Nat.toDigits 10 n, none,
    ⟨Or.inl rfl, (allDigits_zeros k).append (allDigits_toDigits n), nofun⟩, ?_,
    numeralValue_float (Or.inl hSome) ?_ ?_⟩
  · rw [pointChars_of_ne_nil hSome, String.toList_append, String.toList_append, toList_zeros,
      toList_toString_nat]
    simp [exponentChars]
  · rw [List.singleton_append, hZeros, digitsValue_zeros_append, digitsValue_toDigits]
  · rw [exponentValue, List.length_append, List.length_replicate]
    push_cast
    omega

/-- All digits stand before the point, and zeros after them. -/
theorem denotes_large (hn : n ≠ 0) (k : Nat) :
    Denotes (toString n ++ zeros k ++ ".0") ⟨n, k⟩ := by
  have hWhole : IsWhole (Nat.toDigits 10 n ++ List.replicate k '0') := by
    obtain ⟨c, more, hDigits, hc⟩ := toDigits_head hn
    refine Or.inr ⟨c, more ++ List.replicate k '0', by rw [hDigits]; rfl, hc, ?_⟩
    exact (allDigits_toDigits n).append (allDigits_zeros k)
  refine ⟨Nat.toDigits 10 n ++ List.replicate k '0', ['0'], none, ⟨hWhole, allDigits_zeros 1, nofun⟩,
    ?_, ?_⟩
  · rw [String.toList_append, String.toList_append, toList_zeros, toList_toString_nat]
    rfl
  · intro negative
    -- the zero after the point is one more zero after the digits
    have hZeros : List.replicate k '0' ++ ['0'] = List.replicate (k + 1) '0' :=
      List.replicate_succ'.symm
    have hValue :
        digitsValue (Nat.toDigits 10 n ++ List.replicate k '0' ++ ['0']) = n * 10 ^ (k + 1) := by
      rw [List.append_assoc, hZeros, digitsValue_append_zeros, digitsValue_toDigits]
    have hShift : ofDecimal negative ⟨n * 10 ^ (k + 1), -1⟩ = ofDecimal negative ⟨n, k⟩ := by
      rw [ofDecimal_shifts]
      congr 2
      push_cast
      omega
    rw [← hShift]
    exact numeralValue_float (Or.inl (List.cons_ne_nil _ _)) hValue rfl negative

/-- The point stands among the digits. -/
theorem denotes_split (hn : n ≠ 0) {place : Nat} {e : Int} (hPlace : place ≠ 0)
    (he : (place : Int) = (Nat.toDigits 10 n).length + e) (hExponent : e < 0) :
    Denotes (.ofList ((toString n).toList.take place) ++ "." ++ .ofList ((toString n).toList.drop place))
      ⟨n, e⟩ := by
  have hSome : (Nat.toDigits 10 n).drop place ≠ [] := by
    rw [ne_eq, List.drop_eq_nil_iff]
    omega
  refine ⟨(Nat.toDigits 10 n).take place, (Nat.toDigits 10 n).drop place, none,
    ⟨isWhole_take hn hPlace, fun c hc => allDigits_toDigits n c (List.mem_of_mem_drop hc), nofun⟩, ?_,
    numeralValue_float (Or.inl hSome) ?_ ?_⟩
  · rw [pointChars_of_ne_nil hSome, toList_toString_nat, String.toList_append, String.toList_append,
      String.toList_ofList, String.toList_ofList]
    simp [exponentChars]
  · rw [List.take_append_drop, digitsValue_toDigits]
  · show (0 : Int) - ((Nat.toDigits 10 n).drop place).length = e
    rw [List.length_drop]
    omega

/-- The digits of an exponent, at least two. -/
theorem exponent_digits (k : Nat) :
    ∃ digits, (if (toString k).length < 2 then "0" ++ toString k else toString k).toList = digits ∧
      AllDigits digits ∧ digits ≠ [] ∧ digitsValue digits = k := by
  split
  · refine ⟨List.replicate 1 '0' ++ Nat.toDigits 10 k, ?_,
      (allDigits_zeros 1).append (allDigits_toDigits k), List.cons_ne_nil _ _, ?_⟩
    · rw [String.toList_append, toList_toString_nat]
      rfl
    · rw [digitsValue_zeros_append, digitsValue_toDigits]
  · exact ⟨Nat.toDigits 10 k, toList_toString_nat k, allDigits_toDigits k, (isWhole_toDigits k).ne_nil,
      digitsValue_toDigits k⟩

/-- A fraction stands after a point, if there is one. -/
theorem toList_fraction (digits : List Char) :
    (if (String.ofList digits).isEmpty then "" else "." ++ String.ofList digits).toList =
      pointChars digits := by
  cases digits with
  | nil => rfl
  | cons d more =>
    have hSome : (String.ofList (d :: more)).isEmpty = false := by simp
    rw [hSome, if_neg Bool.false_ne_true, String.toList_append]
    exact congrArg ('.' :: ·) String.toList_ofList

/-- One digit stands before the point, and an exponent makes up for it. -/
theorem denotes_exponent (hn : n ≠ 0) {x e : Int} (hx : x = (Nat.toDigits 10 n).length + e - 1) :
    Denotes (.ofList ((toString n).toList.take 1)
      ++ (if (String.ofList ((toString n).toList.drop 1)).isEmpty then ""
          else "." ++ .ofList ((toString n).toList.drop 1))
      ++ (if x < 0 then "e-" else "e+")
      ++ (if (toString x.natAbs).length < 2 then "0" ++ toString x.natAbs else toString x.natAbs))
      ⟨n, e⟩ := by
  obtain ⟨digits, hDigits, hAll, hSome, hValue⟩ := exponent_digits x.natAbs
  refine ⟨(Nat.toDigits 10 n).take 1, (Nat.toDigits 10 n).drop 1, some (x < 0, digits),
    ⟨isWhole_take hn Nat.one_ne_zero, fun c hc => allDigits_toDigits n c (List.mem_of_mem_drop hc), ?_⟩,
    ?_, numeralValue_float (Or.inr (Option.some_ne_none _)) ?_ ?_⟩
  · rintro _ ⟨⟩
    exact ⟨hAll, hSome⟩
  · have hSign : (if x < 0 then "e-" else "e+").toList = ['e', exponentSign (x < 0)] := by
      by_cases hNegative : x < 0 <;> simp [hNegative, exponentSign]
    rw [String.toList_append, String.toList_append, String.toList_append, toList_fraction, hDigits, hSign,
      String.toList_ofList, toList_toString_nat]
    simp [exponentChars]
  · rw [List.take_append_drop, digitsValue_toDigits]
  · have hPositive : 0 < (Nat.toDigits 10 n).length :=
      List.length_pos_iff.mpr (isWhole_toDigits n).ne_nil
    show (if decide (x < 0) = true then -(digitsValue digits : Int) else digitsValue digits)
      - ((Nat.toDigits 10 n).drop 1).length = e
    simp only [List.length_drop, hValue, decide_eq_true_eq]
    split <;> omega

end Layouts

/-- The text of a decimal numeral denotes it. -/
theorem denotes_decimalText (d : Decimal) : Denotes (decimalText d) d := by
  obtain ⟨n, e⟩ := d
  by_cases hZero : n = 0
  · subst hZero
    exact denotes_zero e
  unfold decimalText
  simp only [hZero, if_false]
  split
  · exact denotes_exponent hZero (by rw [length_toString])
  · rename_i hPositional
    have hLength := length_toString n
    split
    · exact denotes_small (by omega)
    · split
      · have hLarge := denotes_large hZero e.toNat
        rwa [Int.toNat_of_nonneg (by omega)] at hLarge
      · exact denotes_split hZero (by omega) (by omega) (by omega)

/-- The text of a finite double is a numeral of it. -/
theorem isNumber_finite (spelling : Spelling) (negative : Bool) (m : Magnitude) :
    IsNumber (text spelling (.finite negative m)) (.float (.finite negative m)) := by
  obtain ⟨whole, fraction, exponent, hNumeral, hText, hValue⟩ := denotes_decimalText (shortest m)
  refine ⟨negative, whole, fraction, exponent, hNumeral, ?_, ?_⟩
  · have hSign : (if negative then "-" else "").toList = signChars negative := by
      cases negative <;> rfl
    rw [text, String.toList_append, hSign, hText, numeralChars]
  · rw [hValue, ofDecimal_shortest]

-- ---------------------------------------------------------------------------
-- Scalars
-- ---------------------------------------------------------------------------

/-- A word that does not stand here is not read. -/
theorem readWord?_none {word : String} {cs : List Char} (value : Value)
    (h : ¬List.IsPrefix word.toList cs) : readWord? word value cs = none := by
  unfold readWord?
  rw [dif_neg]
  rintro ⟨hPrefix, -⟩
  exact h (List.isPrefixOf_iff_prefix.mp hPrefix)

/-- A word that stands here is read. -/
theorem finds_word {word : String} (value : Value) (rest : List Char) (hSome : word.toList ≠ []) :
    Finds (readWord? word value (word.toList ++ rest)) value rest := by
  have hLeft : (word.toList ++ rest).drop word.length = rest := by
    rw [← String.length_toList, drop_append_length]
  have hShorter : rest.length < (word.toList ++ rest).length := by
    have := List.length_pos_iff.mpr hSome
    rw [List.length_append]
    omega
  have hPrefix : word.toList.isPrefixOf (word.toList ++ rest) = true :=
    List.isPrefixOf_iff_prefix.mpr (List.prefix_append _ _)
  refine ⟨hShorter, ?_⟩
  unfold readWord?
  simp only [hLeft]
  exact dif_pos ⟨hPrefix, hShorter⟩

/-- Each word is read as its value, because no two words have the same first letter. -/
theorem reads_word {w : String × Value} (hw : w ∈ words) (rest : List Char) :
    Reads (readScalar (w.1.toList ++ rest)) w.2 rest := by
  have hFirst : (words.map fun w => w.1.toList.head?).Pairwise (· ≠ ·) := by decide
  have hSome : ∀ u ∈ words.map (·.1), u.toList ≠ [] := by decide
  obtain ⟨before, after, hSplit⟩ := List.append_of_mem hw
  have hBefore : ∀ u ∈ before, readWord? u.1 u.2 (w.1.toList ++ rest) = none := by
    intro u hu
    refine readWord?_none _ ?_
    rintro ⟨more, hPrefix⟩
    rw [hSplit, List.map_append, List.map_cons, List.pairwise_append] at hFirst
    refine hFirst.2.2 _ (List.mem_map_of_mem hu) _ List.mem_cons_self ?_
    have hu : u ∈ words := hSplit ▸ List.mem_append_left _ hu
    obtain ⟨c, us, hc⟩ := List.exists_cons_of_ne_nil (hSome _ (List.mem_map_of_mem hu))
    obtain ⟨d, ws, hd⟩ := List.exists_cons_of_ne_nil (hSome _ (List.mem_map_of_mem hw))
    rw [hc, hd, List.cons_append, List.cons_append] at hPrefix
    rw [hc, hd, List.head?_cons, List.head?_cons, (List.cons.inj hPrefix).1]
  obtain ⟨hShorter, hFound⟩ := finds_word w.2 rest (hSome _ (List.mem_map_of_mem hw))
  refine ⟨hShorter, ?_⟩
  unfold readScalar
  rw [hSplit, List.findSome?_append, List.findSome?_eq_none_iff.mpr hBefore, List.findSome?_cons, hFound]
  rfl

/-- The text of a number starts with a digit, after a sign or without one. -/
theorem IsNumber.starts {text : String} {v : Value} (h : IsNumber text v) :
    ∃ negative c more, text.toList = signChars negative ++ c :: more ∧ c.isDigit = true := by
  obtain ⟨negative, whole, fraction, exponent, hNumeral, hText, -⟩ := h
  obtain ⟨c, more, rfl⟩ := List.exists_cons_of_ne_nil hNumeral.whole.ne_nil
  exact ⟨negative, c, _, hText, hNumeral.whole.allDigits c List.mem_cons_self⟩

/-- A number is no word: the first two letters of a word are no digits. -/
theorem IsNumber.words_eq_none {text : String} {v : Value} (h : IsNumber text v) (rest : List Char) :
    words.findSome? (fun w => readWord? w.1 w.2 (text.toList ++ rest)) = none := by
  obtain ⟨negative, c, more, hText, hDigit⟩ := h.starts
  have hLetters : ∀ u ∈ words.map (·.1),
      2 ≤ u.toList.length ∧ (u.toList.all fun d => !d.isDigit) = true := by
    decide
  rw [List.findSome?_eq_none_iff]
  intro w hw
  obtain ⟨hLength, hLetter⟩ := hLetters _ (List.mem_map_of_mem hw)
  refine readWord?_none _ ?_
  intro hPrefix
  have hStart : List.IsPrefix (signChars negative ++ [c]) (text.toList ++ rest) :=
    ⟨more ++ rest, by rw [hText]; simp⟩
  have hShort : (signChars negative ++ [c]).length ≤ w.1.toList.length := by
    cases negative
    · exact Nat.le_of_succ_le hLength
    · exact hLength
  have hMem := (List.prefix_of_prefix_length_le hStart hPrefix hShort).subset
    (List.mem_append_right _ List.mem_cons_self)
  have hNone := List.all_eq_true.mp hLetter c hMem
  rw [hDigit] at hNone
  cases hNone

/-- **Numbers read back.** The text of a number is read as the number, wherever a value may end. -/
theorem IsNumber.reads {text : String} {v : Value} (h : IsNumber text v) {rest : List Char}
    (hRest : Ended rest) : Reads (readScalar (text.toList ++ rest)) v rest := by
  have hNone := h.words_eq_none rest
  obtain ⟨negative, whole, fraction, exponent, hNumeral, hText, rfl⟩ := h
  rw [hText] at hNone ⊢
  obtain ⟨hShorter, hFound⟩ := finds_numeral hNumeral hRest
  refine ⟨hShorter, ?_⟩
  unfold readScalar
  rw [hNone, hFound]

end ClientGen.Document.Json
