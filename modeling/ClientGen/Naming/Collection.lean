import ClientGen.Dictionary
import ClientGen.Text.Case
import ClientGen.Text.Run

/-!
# Collections

Every endpoint belongs to a collection, which becomes a resource of the generated client.
-/

namespace ClientGen.Naming

open ClientGen.Text

/-- The first segment of a path, leaving slashes at the ends aside. -/
def firstSegment (path : String) : List Char :=
  ((splitOn '/' (trim (· == '/') path.toList)).head?).getD []

/-- The text unless it is empty. -/
def nonEmpty? (text : Option String) : Option String := text.filter (· != "")

/-- A text with its first character in upper case. -/
def capitalizeFull : List Char → List Char
  | [] => []
  | c :: rest => upperChar c ++ rest

/-- The collection of an endpoint. The table of collections decides by the first path segment; else
the tag names the collection, or the segment does. A path without segments falls back on the tag and
then on `fallback`. -/
def collection (path : String) (tag : Option String) (table : Dictionary String String)
    (fallback : String) : String :=
  match firstSegment path with
  | [] => (nonEmpty? tag).getD fallback
  | first =>
    match table.get? (.ofList first) with
    | some name => name
    | none => (nonEmpty? tag).getD (.ofList (capitalizeFull first))

end ClientGen.Naming
