import ClientGen.Number.Double

/-!
# The shortest text of a double

A double is written with the fewest decimal digits that read back as the same double; of the numerals
with that many digits the nearest is taken, and of two equally near ones that with the even last
digit. Numerals are positional from `10 ^ -4` up to below `10 ^ 16` and have an exponent elsewhere.
-/

namespace ClientGen.Double

/-- The least `k ≤ bound` with `2 ^ 1074 ≤ n · 10 ^ k`, searched upwards from `k`. -/
def leadingZeros (n : Nat) : (bound : Nat) → (k : Nat) → Nat
  | 0, k => k
  | bound + 1, k => if unitsPerOne ≤ n * Nat.pow 10 k then k else leadingZeros n bound (k + 1)

/-- The place of the decimal point: the `p` with `10 ^ (p - 1) ≤ units < 10 ^ p`. -/
def pointPlace (m : Magnitude) : Int :=
  if unitsPerOne ≤ m.units then digitCount (m.units / unitsPerOne)
  else 1 - (leadingZeros m.units 330 1 : Int)

/-- Does the numeral read back as the magnitude? -/
def readsBack (m : Magnitude) (d : Decimal) : Bool := ofDecimal false d == .finite false m

/-- The two neighbours of a magnitude among the numerals with the exponent `e`, the nearer one first. -/
def neighbours (m : Magnitude) (e : Int) : List Decimal :=
  let num := if 0 ≤ e then m.units else m.units * Nat.pow 10 (-e).toNat
  let den := if 0 ≤ e then unitsPerOne * Nat.pow 10 e.toNat else unitsPerOne
  let low := num / den
  let near := Magnitude.roundDiv num den
  [⟨near, e⟩, ⟨if near = low then low + 1 else low, e⟩]

/-- The first numeral that reads back, with `digits`, `digits + 1`, … digits. If the next `bound`
lengths have none, the exact numeral is taken. -/
def searchDigits (m : Magnitude) (place : Int) : (bound : Nat) → (digits : Nat) → Decimal
  | 0, _ => ⟨m.units * Nat.pow 5 1074, -1074⟩
  | bound + 1, digits =>
    -- If any numeral of this length reads back, a neighbour of the magnitude does.
    match (neighbours m (place - digits)).find? (readsBack m) with
    | some d => d
    | none => searchDigits m place bound (digits + 1)

/-- Drop zeros at the end of the digits, at most `bound` of them. -/
def dropZeros : (bound : Nat) → Decimal → Decimal
  | 0, d => d
  | bound + 1, d =>
    if d.digits ≠ 0 ∧ d.digits % 10 = 0 then dropZeros bound ⟨d.digits / 10, d.exponent + 1⟩ else d

/-- The shortest numeral of a magnitude. -/
def shortest (m : Magnitude) : Decimal :=
  if m.units = 0 then ⟨0, 0⟩
  else
    let d := searchDigits m (pointPlace m) 17 1
    dropZeros (digitCount d.digits) d

/-- Zeros. -/
def zeros (n : Nat) : String := .ofList (List.replicate n '0')

/-- The text of a numeral: with a decimal point, or with an exponent of at least two digits. -/
def decimalText (d : Decimal) : String :=
  let digits := toString d.digits
  let count := digits.length
  let place := (count : Int) + d.exponent
  if d.digits = 0 then "0.0"
  else if place ≤ -4 ∨ 16 < place then
    let exponent := place - 1
    let size := toString exponent.natAbs
    let lead := String.ofList (digits.toList.take 1)
    let fraction := String.ofList (digits.toList.drop 1)
    lead ++ (if fraction.isEmpty then "" else "." ++ fraction)
      ++ (if exponent < 0 then "e-" else "e+") ++ (if size.length < 2 then "0" ++ size else size)
  else if place ≤ 0 then "0." ++ zeros (-place).toNat ++ digits
  else if 0 ≤ d.exponent then digits ++ zeros d.exponent.toNat ++ ".0"
  else
    .ofList (digits.toList.take place.toNat) ++ "." ++ .ofList (digits.toList.drop place.toNat)

/-- The spellings of the values that are no numbers. -/
structure Spelling where
  nan : String
  infinity : String

/-- The text of a double. -/
def text (spelling : Spelling) : Double → String
  | .nan => spelling.nan
  | .infinite negative => (if negative then "-" else "") ++ spelling.infinity
  | .finite negative m => (if negative then "-" else "") ++ decimalText (shortest m)

end ClientGen.Double
