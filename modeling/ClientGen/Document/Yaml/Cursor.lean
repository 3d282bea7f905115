/-!
# Places in a YAML text

The classes of characters that YAML tells apart, and a cursor that knows the line and the column of the
text that is left.
-/

namespace ClientGen.Document.Yaml

/-- A character that ends a line. -/
def isBreak (c : Char) : Bool :=
  c == '\n' || c == '\r' || c == '\u0085' || c == '\u2028' || c == '\u2029'

/-- A space or a line end. -/
def isSpaceOrBreak (c : Char) : Bool := c == ' ' || isBreak c

/-- A space, a tab or a line end. -/
def isBlank (c : Char) : Bool := c == '\t' || isSpaceOrBreak c

/-- Does the text start with a blank, or is it at its end? -/
def blankNext : List Char → Bool
  | [] => true
  | c :: _ => isBlank c

/-- Does the text start with a space or a line end, or is it at its end? -/
def spaceNext : List Char → Bool
  | [] => true
  | c :: _ => isSpaceOrBreak c

/-- Does the text start with a line end, or is it at its end? -/
def breakNext : List Char → Bool
  | [] => true
  | c :: _ => isBreak c

/-- A character of a name. -/
def isNameChar (c : Char) : Bool := c.isAlphanum || c == '-' || c == '_'

/-- May the character occur in a YAML text? -/
def isAllowed (c : Char) : Bool :=
  let n := c.toNat
  n == 0x09 || n == 0x0a || n == 0x0d || (0x20 ≤ n && n ≤ 0x7e) || n == 0x85
    || (0xa0 ≤ n && n ≤ 0xd7ff) || (0xe000 ≤ n && n ≤ 0xfffd) || 0x10000 ≤ n

/-- The text that is left, and where it starts. -/
structure Cursor where
  rest : List Char
  index : Nat := 0
  line : Nat := 0
  column : Nat := 0

namespace Cursor

/-- The next character. -/
def peek? (c : Cursor) : Option Char := c.rest.head?

/-- Is this character next? -/
def sees (c : Cursor) (x : Char) : Bool := c.peek? == some x

/-- The cursor after the next character. A carriage return before a line feed ends no line. -/
def next (c : Cursor) : Cursor :=
  match c.rest with
  | [] => c
  | x :: more =>
    if isBreak x && !(x == '\r' && more.head? == some '\n') then ⟨more, c.index + 1, c.line + 1, 0⟩
    else ⟨more, c.index + 1, c.line, if x == '\ufeff' then c.column else c.column + 1⟩

/-- The cursor after `n` characters. -/
def skip (c : Cursor) : (n : Nat) → Cursor
  | 0 => c
  | n + 1 => c.next.skip n

/-- The characters of a class up to the first other one. -/
def run (c : Cursor) (p : Char → Bool) : List Char := c.rest.takeWhile p

/-- The cursor after a run of characters of a class. -/
def skipRun (c : Cursor) (p : Char → Bool) : Cursor := c.skip (c.run p).length

/-- The cursor after spaces. -/
def skipSpaces (c : Cursor) : Cursor := c.skipRun (· == ' ')

/-- The line end that comes next, as the character it stands for, and the cursor after it. -/
def lineEnd? (c : Cursor) : Option (Char × Cursor) :=
  match c.rest with
  | '\r' :: '\n' :: _ => some ('\n', c.skip 2)
  | x :: _ =>
    if x == '\u2028' || x == '\u2029' then some (x, c.next)
    else if isBreak x then some ('\n', c.next)
    else none
  | [] => none

/-- The cursor after a comment, if there is one. -/
def skipComment (c : Cursor) : Cursor := if c.sees '#' then c.skipRun (! isBreak ·) else c

/-- Does the mark come next, with a blank after it? -/
def seesMark (c : Cursor) (mark : String) : Bool :=
  mark.toList.isPrefixOf c.rest && blankNext (c.rest.drop mark.length)

/-- Does a mark between documents come next? -/
def seesDocumentMark (c : Cursor) : Bool := c.seesMark "---" || c.seesMark "..."

end Cursor

end ClientGen.Document.Yaml
