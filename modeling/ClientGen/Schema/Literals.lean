import ClientGen.Document.Depth
import ClientGen.Schema.Type

/-!
# Null and literal values

Whether a schema admits null, and the literal values that it lists.
-/

namespace ClientGen.Schema

open ClientGen.Document

/-- Is one of the members at `key` the schema of null? -/
def offersNull (schema : Value) (key : String) : Except Fault Bool :=
  match schema.field? key with
  | none => .ok false
  | some members => do return (← members.elements).any isNullSchema

/-- Does the schema itself admit null? -/
def isNullable (schema : Value) : Except Fault Bool := do
  if !schema.isMapping then return false
  if let some (.list names) := schema.field? "type" then
    if names.any (·.isStr "null") then return true
  if ← offersNull schema "oneOf" then return true
  if ← offersNull schema "anyOf" then return true
  match schema.field? "nullable" with
  | some (.bool true) => return true
  | _ => return false

/-- The values other than null, if there are any. -/
def literals? (values : List Value) : Option (List Value) :=
  match values.filter fun | .null => false | _ => true with
  | [] => none
  | vs => some vs

mutual

/-- The literal values of an enumeration schema, without null: its own, or those of the first composed
member that has some. -/
def enumValues? (schema : Value) : Except Fault (Option (List Value)) :=
  match schema.field? "enum" with
  | some (.list values) => .ok (literals? values)
  | _ =>
    match _allOf : schema.field? "allOf" with
    | none => .ok none
    | some (.list members) => firstEnum? members
    | some other => do
      let _ ← other.elements
      return none
termination_by (schema.depth, 0)
decreasing_by
  have := Value.field?_depth _allOf
  simp only [Value.depth] at this
  simp only [Prod.lex_def]
  omega

/-- The literal values of the first schema that has some. -/
def firstEnum? (schemas : List Value) : Except Fault (Option (List Value)) :=
  match schemas with
  | [] => .ok none
  | schema :: rest => do
    match ← enumValues? schema with
    | some values => return some values
    | none => firstEnum? rest
termination_by (Value.itemsDepth schemas, schemas.length + 1)
decreasing_by all_goals simp only [Value.itemsDepth, Prod.lex_def, List.length_cons]; omega

end

end ClientGen.Schema
