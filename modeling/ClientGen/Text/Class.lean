import ClientGen.Text.PrintableTable
import ClientGen.Text.WordTable

/-!
# Character classes

The classes that naming, wrapping and quoting ask for. Where identifiers are built, the ASCII classes
of `Char` are meant; the classes below cover all of Unicode. The ASCII part of each is a rule on its
own, so that a statement about ASCII text never looks into the tables.
-/

namespace ClientGen.Text

/-- Blank characters: the ASCII ones (with the four information separators U+001C to U+001F), the
next-line and no-break characters, and the space separators. -/
def blankRanges : List CodeRange := [
  (0x0009, 0x000d), (0x001c, 0x0020), (0x0085, 0x0085), (0x00a0, 0x00a0), (0x1680, 0x1680),
  (0x2000, 0x200a), (0x2028, 0x2029), (0x202f, 0x202f), (0x205f, 0x205f), (0x3000, 0x3000)]

/-- Is the character blank? -/
def isBlank (c : Char) : Bool := inRanges blankRanges c

/-- A decimal digit of any script. -/
def isDecimal (c : Char) : Bool :=
  if c.toNat < 0x80 then c.isDigit else inRanges decimalRanges c

/-- A letter, a numeral or the underscore. -/
def isWord (c : Char) : Bool :=
  if c.toNat < 0x80 then c.isAlphanum || c == '_' else inRanges wordRanges c

/-- A word character that is no decimal digit. -/
def isLetter (c : Char) : Bool := isWord c && !isDecimal c

/-- Does the character show when it is printed? -/
def isPrintable (c : Char) : Bool :=
  if c.toNat < 0x7f then decide (0x20 ≤ c.toNat) else !inRanges unprintableRanges c

/-- The characters that an ASCII identifier is made of. -/
def isIdentifierChar (c : Char) : Bool := c.isAlphanum || c == '_'

end ClientGen.Text
