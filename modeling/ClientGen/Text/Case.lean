import ClientGen.Text.CaseTable

/-!
# Upper and lower case

Full case mapping over all of Unicode: one character may become several (`ß` becomes `SS`), and a
capital sigma becomes the final form at the end of a word. On ASCII both maps are the plain ones.
-/

namespace ClientGen.Text

/-- Where a table of shifts sends the code point, if it has a row for it. -/
def shiftOf? (shifts : List CaseShift) (n : Nat) : Option Char :=
  (shifts.find? fun s => decide (s.first ≤ n) && decide (n ≤ s.last) && (n - s.first) % s.step == 0).map
    fun s => Char.ofNat (Int.toNat (s.shift + n))

/-- The image of a character outside ASCII under one pair of tables. -/
def mapCase (shifts : List CaseShift) (sequences : List (Nat × List Nat)) (c : Char) : List Char :=
  match sequences.lookup c.toNat with
  | some image => image.map Char.ofNat
  | none => [(shiftOf? shifts c.toNat).getD c]

/-- The upper case of one character. -/
def upperChar (c : Char) : List Char :=
  if c.toNat < 0x80 then [c.toUpper] else mapCase upperShifts upperSequences c

/-- The lower case of one character on its own. -/
def lowerChar (c : Char) : List Char :=
  if c.toNat < 0x80 then [c.toLower] else mapCase lowerShifts lowerSequences c

/-- The upper case of a text. -/
def upper (cs : List Char) : List Char := cs.flatMap upperChar

/-- Is the first character that is not passed over a cased one? -/
def nextIsCased (cs : List Char) : Bool :=
  match cs.dropWhile (inRanges caseIgnorableRanges) with
  | [] => false
  | c :: _ => inRanges casedRanges c

/-- The lower case of a text whose reversed beginning is `before`. A capital sigma takes its final
form when a cased letter stands before it and none after it. -/
def lowerAfter (before : List Char) : List Char → List Char
  | [] => []
  | c :: rest =>
    let image :=
      if c == 'Σ' then
        if nextIsCased before && !nextIsCased rest then ['ς'] else ['σ']
      else lowerChar c
    image ++ lowerAfter (c :: before) rest

/-- The lower case of a text. -/
def lower (cs : List Char) : List Char := lowerAfter [] cs

end ClientGen.Text
