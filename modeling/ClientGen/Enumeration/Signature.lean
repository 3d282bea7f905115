import ClientGen.Document.Access
import ClientGen.Document.Json.Reader
import ClientGen.Document.Json.Writer
import ClientGen.Enumeration.Case
import ClientGen.Naming.Fresh

/-!
# Signatures and members of enumerations

Two parameters have the same enumeration when they list the same values. The signature of a list of
values is the sorted list of their canonical texts, without repetitions; it is a JSON list again, from
which the values are read back. `members` names the values.
-/

namespace ClientGen.Enumeration

open ClientGen.Document

/-- The canonical text of a value. -/
def canonicalText (v : Value) : Except Fault String :=
  match Json.canonical? v with
  | some text => .ok text
  | none => .error (.misuse .kind)

/-- The signature of a list of values. -/
def signature (values : List Value) : Except Fault String := do
  let texts ← values.mapM canonicalText
  return "[" ++ ",".intercalate ((texts.eraseDups).mergeSort (· ≤ ·)) ++ "]"

/-- The values that a signature lists. -/
def signedValues (signature : String) : List Value :=
  match Json.parse signature with
  | .ok (.list values) => values
  | _ => []

/-- The text that a literal value is named by and that stands for it. -/
def literalText : Value → Except Fault String
  | .str s => .ok s
  | v => canonicalText v

/-- Name a further literal with the given text, apart from the members so far. -/
def addMember (members : List (String × String)) (text : String) : List (String × String) :=
  let name := Naming.fresh (members.map (·.1)) (Naming.numbered (caseName text) "_") 1
  members ++ [(name, text)]

/-- The members for literal values: distinct names, each with the text of its value. -/
def members (values : List Value) : Except Fault (List (String × String)) := do
  return (← values.mapM literalText).foldl addMember []

end ClientGen.Enumeration
