import ClientGen.Text.Case
import ClientGen.Text.Run

/-!
# Locations

Where a file is: the names to follow from the working directory, or from the root if the first name is a
slash. Empty names and single dots say nothing and are left out.
-/

namespace ClientGen.Files

/-- The names on the way to a file or a directory. -/
structure Location where
  names : List String
  deriving DecidableEq, Repr

namespace Location

/-- The location that a path stands for. -/
def ofText (path : String) : Location :=
  let names := ((Text.splitOn '/' path.toList).map String.ofList).filter fun n => n != "" && n != "."
  ⟨if path.startsWith "/" then "/" :: names else names⟩

/-- Does the location start from the root? -/
def isAbsolute (l : Location) : Bool := l.names.head? == some "/"

/-- The path of a location. -/
def text (l : Location) : String :=
  match l.names with
  | [] => "."
  | "/" :: names => "/" ++ "/".intercalate names
  | names => "/".intercalate names

/-- The location that `inner` is when it is looked up from `l`. -/
def join (l inner : Location) : Location :=
  if inner.isAbsolute then inner else ⟨l.names ++ inner.names⟩

/-- The directory that holds the location. -/
def parent (l : Location) : Location := ⟨l.names.dropLast⟩

/-- The extension of the last name, from its last dot on. A dot at either end of the name starts none. -/
def extension (l : Location) : String :=
  let name := ((l.names.getLast?).getD "").toList
  let tail := (name.reverse.takeWhile (· != '.')).reverse
  if tail.isEmpty || name.length ≤ tail.length + 1 then "" else .ofList ('.' :: tail)

end Location

end ClientGen.Files
