/-!
# Placeholders in paths

A path segment is a text with placeholders in braces. `pieces` cuts it at its placeholders, each from
a brace up to the next closing one; `placeholders` finds the names that are written properly, with no
further brace inside.
-/

namespace ClientGen.Path

/-- A part of a path segment. -/
inductive Piece where
  /-- text that stands for itself -/
  | text (cs : List Char)
  /-- the name of a placeholder -/
  | placeholder (name : List Char)
  deriving DecidableEq, Repr

/-- The opening brace of a placeholder. -/
def openBrace : Char := '\x7b'

/-- The closing brace of a placeholder. -/
def closeBrace : Char := '\x7d'

mutual

/-- The text up to the next placeholder, and the pieces from that placeholder on. A brace that no other
one closes opens no placeholder. -/
def textFrom : List Char → List Char × List Piece
  | [] => ([], [])
  | c :: rest =>
    if c == openBrace && rest.contains closeBrace then
      let (name, more) := nameFrom rest
      ([], .placeholder name :: more)
    else
      let (cs, more) := textFrom rest
      (c :: cs, more)

/-- The rest of a placeholder's name, and the pieces after it. -/
def nameFrom : List Char → List Char × List Piece
  | [] => ([], [])
  | c :: rest =>
    if c == closeBrace then
      let (cs, more) := textFrom rest
      ([], .text cs :: more)
    else
      let (name, more) := nameFrom rest
      (c :: name, more)

end

/-- Cut a segment at its placeholders. Texts and placeholders alternate, beginning and ending with a
text, which may be empty. -/
def pieces (cs : List Char) : List Piece :=
  let (first, more) := textFrom cs
  .text first :: more

/-- A character that a placeholder's name may hold. -/
def isNameChar (c : Char) : Bool := c != openBrace && c != closeBrace

/-- The placeholder names of a path, in order: non-empty texts without braces, in braces. -/
def placeholders : List Char → List String
  | [] => []
  | c :: rest =>
    if c == openBrace && !(rest.takeWhile isNameChar).isEmpty
        && (rest.dropWhile isNameChar).head? == some closeBrace then
      .ofList (rest.takeWhile isNameChar) :: placeholders rest
    else placeholders rest

end ClientGen.Path
