/-!
# Ranges of code points

A character class of the Unicode character database is given as a list of inclusive ranges.
-/

namespace ClientGen.Text

/-- An inclusive range of code points. -/
abbrev CodeRange := Nat × Nat

/-- Does the character lie in one of the ranges? -/
def inRanges (ranges : List CodeRange) (c : Char) : Bool :=
  ranges.any fun r => decide (r.1 ≤ c.toNat) && decide (c.toNat ≤ r.2)

end ClientGen.Text
