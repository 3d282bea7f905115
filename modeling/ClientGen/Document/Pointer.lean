import ClientGen.Document.Value
import ClientGen.Text.Run

/-!
# Pointers into documents

A pointer names a place in a document by the keys that lead to it. In a key, `~0` stands for a tilde and
`~1` for a slash.
-/

namespace ClientGen.Document.Pointer

open ClientGen.Text

/-- The key that a part of a pointer stands for. -/
def decodeKey (part : List Char) : List Char :=
  replacePair '~' '0' ['~'] (replacePair '~' '1' ['/'] part)

/-- The keys of a pointer into the same document. -/
def keys? (pointer : String) : Option (List String) :=
  match pointer.toList with
  | '#' :: '/' :: rest => some ((splitOn '/' rest).map fun part => .ofList (decodeKey part))
  | _ => none

/-- The value that keys lead to through nested mappings. -/
def follow? (v : Value) : List String → Option Value
  | [] => some v
  | key :: keys => (v.field? key).bind fun w => follow? w keys

end ClientGen.Document.Pointer
