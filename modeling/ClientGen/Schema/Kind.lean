import ClientGen.Document.Value

/-!
# Semantic types

The type that a schema primitive has in the generated code.
-/

namespace ClientGen.Schema

open ClientGen.Document

/-- What a schema describes, as far as the generated code tells types apart. -/
inductive Kind where
  | integer | number | text | boolean | mapping | sequence | dynamic
  deriving DecidableEq, Repr

namespace Kind

/-- The type of the kind in generated code. -/
def typeText : Kind → String
  | integer => "int"
  | number => "float | int"
  | text => "str"
  | boolean => "bool"
  | mapping => "dict"
  | sequence => "list"
  | dynamic => "Any"

/-- Does it hold further values? -/
def isContainer : Kind → Bool
  | mapping | sequence => true
  | _ => false

/-- The kind of a primitive's name. -/
def ofName : String → Kind
  | "integer" => integer
  | "number" => number
  | "string" => text
  | "boolean" => boolean
  | "object" => mapping
  | "array" => sequence
  | _ => dynamic

/-- The kind that the `type` of a schema gives: a primitive's name, or a list with one such name and
any number of `null`s. -/
def ofType : Value → Kind
  | .str name => ofName name
  | .list names =>
    match names.filter (! ·.isStr "null") with
    | [.str name] => ofName name
    | _ => dynamic
  | _ => dynamic

end Kind

end ClientGen.Schema
