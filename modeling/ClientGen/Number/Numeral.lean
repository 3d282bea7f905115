import ClientGen.Number.Double
import ClientGen.Text.Case
import ClientGen.Text.Class
import ClientGen.Text.Run

/-!
# Numerals

Texts as numbers, in the tolerant form that YAML documents are read with: blanks around the numeral, a
sign, decimal digits of any script, and a base mark that repeats the base.
-/

namespace ClientGen.Numeral

open ClientGen.Text

/-- The value of a decimal digit of any script. Each block of digits starts with its zero. -/
def decimal? (c : Char) : Option Nat :=
  if c.toNat < 0x80 then if c.isDigit then some (c.toNat - 48) else none
  else
    (decimalRanges.find? fun r => r.1 ≤ c.toNat && c.toNat ≤ r.2).map fun r => (c.toNat - r.1) % 10

/-- The value of a digit in a base up to sixteen. -/
def digit? (base : Nat) (c : Char) : Option Nat :=
  let value :=
    if 'a' ≤ c ∧ c ≤ 'f' then some (c.toNat - 87)
    else if 'A' ≤ c ∧ c ≤ 'F' then some (c.toNat - 55)
    else decimal? c
  value.filter (· < base)

/-- The number that digits stand for in a base, if all are digits of the base and there is one. -/
def digits? (base : Nat) (cs : List Char) : Option Nat :=
  if cs.isEmpty then none else cs.foldlM (fun n c => (digit? base c).map (base * n + ·)) 0

/-- The letter that marks a base after a zero. -/
def baseLetter? : Nat → Option Char
  | 2 => some 'b'
  | 8 => some 'o'
  | 16 => some 'x'
  | _ => none

/-- The text without the mark of the base. -/
def dropBaseMark (base : Nat) (cs : List Char) : List Char :=
  match cs with
  | '0' :: x :: rest => if baseLetter? base == some x.toLower then rest else cs
  | _ => cs

/-- A sign and the text after it. -/
def signed (cs : List Char) : Bool × List Char :=
  match cs with
  | '-' :: rest => (true, rest)
  | '+' :: rest => (false, rest)
  | _ => (false, cs)

/-- The integer that a text stands for in a base. -/
def int? (base : Nat) (cs : List Char) : Option Int :=
  let (negative, rest) := signed (trim isBlank cs)
  (digits? base (dropBaseMark base rest)).map fun n => if negative then -(n : Int) else n

/-- The digits at the front of a text as ASCII digits. -/
def leadingDigits (cs : List Char) : List Nat := (cs.takeWhile isDecimal).filterMap decimal?

/-- The number that decimal digits stand for. -/
def ofDigits (ds : List Nat) : Nat := ds.foldl (fun n d => 10 * n + d) 0

/-- The power of ten at the end of a numeral: an exponent, or nothing. -/
def power? (cs : List Char) : Option Int :=
  match cs with
  | [] => some 0
  | e :: rest =>
    let (negative, digits) := signed rest
    if e != 'e' && e != 'E' then none
    else if digits.isEmpty || !digits.all isDecimal then none
    else
      let n : Int := ofDigits (leadingDigits digits)
      some (if negative then -n else n)

/-- The numeral with digits before or after a point and an exponent. -/
def decimalNumeral? (cs : List Char) : Option Decimal :=
  let whole := leadingDigits cs
  let afterWhole := cs.drop whole.length
  let (fraction, rest) :=
    match afterWhole with
    | '.' :: tail =>
      let fraction := leadingDigits tail
      (fraction, tail.drop fraction.length)
    | _ => ([], afterWhole)
  if whole.isEmpty && fraction.isEmpty then none
  else (power? rest).map fun p => ⟨ofDigits (whole ++ fraction), p - fraction.length⟩

/-- The double that a text stands for. -/
def float? (cs : List Char) : Option Double :=
  let (negative, rest) := signed (trim isBlank cs)
  match decimalNumeral? rest with
  | some d => some (.ofDecimal negative d)
  | none =>
    let word := String.ofList (lower rest)
    if word == "inf" || word == "infinity" then some (.infinite negative)
    else if word == "nan" then some .nan
    else none

end ClientGen.Numeral
