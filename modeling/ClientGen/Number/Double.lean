/-!
# Double-precision numbers

The floating-point numbers of a document, kept as exact numbers. Every finite double is a whole number
of units of `2 ^ -1074` with at most 53 significant bits, so a magnitude is a natural number and
comparison, conversion and rounding are arithmetic on natural numbers.

* `Double.Representable` — which numbers of units are doubles;
* `Magnitude.round` — the nearest double to a fraction, a tie going to the even one;
* `Double.ofDecimal` — the double that a decimal numeral denotes.
-/

namespace ClientGen

/-- A decimal numeral: `digits · 10 ^ exponent`. -/
structure Decimal where
  digits : Nat
  exponent : Int
  deriving DecidableEq, Repr

/-- The number of bits by which a number exceeds 53 significant bits. -/
def excessBits (n : Nat) : Nat := n.log2 - 52

/-- Is the number of units of `2 ^ -1074` the magnitude of a double: below `2 ^ 1024`, with at most 53
significant bits? -/
def Representable (n : Nat) : Prop := n.log2 < 2098 ∧ n % Nat.pow 2 (excessBits n) = 0

instance (n : Nat) : Decidable (Representable n) := inferInstanceAs (Decidable (_ ∧ _))

/-- The magnitude of a finite double, in units of `2 ^ -1074`. -/
structure Magnitude where
  units : Nat
  representable : Representable units
  deriving DecidableEq

namespace Magnitude

/-- The magnitude of a number of units that is one. -/
def ofUnits? (n : Nat) : Option Magnitude :=
  if h : Representable n then some ⟨n, h⟩ else none

/-- The magnitude zero. -/
def zero : Magnitude := ⟨0, by decide⟩

/-- The quotient rounded to the nearest whole number, a tie going to the even one. -/
def roundDiv (num den : Nat) : Nat :=
  let q := num / den
  let twice := 2 * (num % den)
  if twice < den then q
  else if den < twice then q + 1
  else q + q % 2

/-- The number of units nearest to `num / den` that has at most 53 significant bits. -/
def roundUnits (num den : Nat) : Nat :=
  let step := Nat.pow 2 (excessBits (num / den))
  roundDiv num (den * step) * step

/-- The magnitude nearest to `num / den` units, unless that is too large for a double. -/
def round (num den : Nat) : Option Magnitude := ofUnits? (roundUnits num den)

end Magnitude

/-- A double-precision number. The two zeros differ in sign; there is one `nan`. -/
inductive Double where
  | finite (negative : Bool) (magnitude : Magnitude)
  | infinite (negative : Bool)
  | nan
  deriving DecidableEq

namespace Double

/-- One unit is `2 ^ -1074`. -/
def unitsPerOne : Nat := Nat.pow 2 1074

/-- The double nearest to the fraction `num / den` of units. -/
def ofUnits (negative : Bool) (num den : Nat) : Double :=
  match Magnitude.round num den with
  | some m => .finite negative m
  | none => .infinite negative

/-- The double nearest to an integer. -/
def ofInt (n : Int) : Double := ofUnits (n < 0) (n.natAbs * unitsPerOne) 1

/-- The number of decimal digits of a number, at least one. -/
def digitCount (n : Nat) : Nat := (Nat.toDigits 10 n).length

/-- The double nearest to a decimal numeral. Numerals from `10 ^ 310` on are infinite and those below
`10 ^ -330` are zero, which keeps the powers of ten small. -/
def ofDecimal (negative : Bool) (d : Decimal) : Double :=
  let top := (digitCount d.digits : Int) + d.exponent
  if d.digits = 0 then .finite negative .zero
  else if top > 310 then .infinite negative
  else if top < -330 then .finite negative .zero
  else if 0 ≤ d.exponent then
    ofUnits negative (d.digits * Nat.pow 10 d.exponent.toNat * unitsPerOne) 1
  else
    ofUnits negative (d.digits * unitsPerOne) (Nat.pow 10 (-d.exponent).toNat)

/-- The whole number of units that a finite double is, with its sign. -/
def signedUnits (negative : Bool) (m : Magnitude) : Int :=
  if negative then -(m.units : Int) else m.units

/-- The double nearest to a signed number of units. A sum of zero is the positive zero. -/
def ofSignedUnits (n : Int) : Double := ofUnits (n < 0) n.natAbs 1

/-- The sum of two doubles, rounded. -/
def add : Double → Double → Double
  | .nan, _ => .nan
  | _, .nan => .nan
  | .infinite s, .infinite t => if s == t then .infinite s else .nan
  | .infinite s, .finite _ _ => .infinite s
  | .finite _ _, .infinite t => .infinite t
  | .finite s a, .finite t b =>
    -- Equal signs are kept apart so that two negative zeros make a negative zero.
    if s == t then ofUnits s (a.units + b.units) 1
    else ofSignedUnits (signedUnits s a + signedUnits t b)

/-- The product of two doubles, rounded. -/
def mul : Double → Double → Double
  | .nan, _ => .nan
  | _, .nan => .nan
  | .infinite s, .infinite t => .infinite (s != t)
  | .infinite s, .finite t b => if b.units = 0 then .nan else .infinite (s != t)
  | .finite s a, .infinite t => if a.units = 0 then .nan else .infinite (s != t)
  | .finite s a, .finite t b => ofUnits (s != t) (a.units * b.units) unitsPerOne

/-- Is it one of the two zeros? -/
def isZero : Double → Bool
  | .finite _ m => m.units == 0
  | _ => false

/-- Equality of numbers: the zeros are equal, and `nan` equals nothing. -/
def numEq : Double → Double → Bool
  | .finite s a, .finite t b => signedUnits s a == signedUnits t b
  | .infinite s, .infinite t => s == t
  | _, _ => false

/-- Order of numbers; `nan` is in no order to anything. -/
def numLt : Double → Double → Bool
  | .nan, _ => false
  | _, .nan => false
  | .infinite s, .infinite t => s && !t
  | .infinite s, .finite _ _ => s
  | .finite _ _, .infinite t => !t
  | .finite s a, .finite t b => decide (signedUnits s a < signedUnits t b)

/-- Is the double the integer `n`? -/
def isInt : Double → Int → Bool
  | .finite s a, n => signedUnits s a == n * unitsPerOne
  | _, _ => false

/-- Is the double below the integer `n`? -/
def ltInt : Double → Int → Bool
  | .finite s a, n => decide (signedUnits s a < n * unitsPerOne)
  | .infinite s, _ => s
  | .nan, _ => false

/-- Is the integer `n` below the double? -/
def intLt (n : Int) : Double → Bool
  | .finite s a => decide (n * unitsPerOne < signedUnits s a)
  | .infinite s => !s
  | .nan => false

end Double

end ClientGen
