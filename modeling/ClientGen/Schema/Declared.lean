import ClientGen.Api.Parameter
import ClientGen.Api.Slot
import ClientGen.Schema.Literals

/-!
# Declared parameters

The `parameters` lists of a path item and of an operation. The first declaration of a name in a slot is
the one that counts, and the path item's declarations come first.
-/

namespace ClientGen.Schema

open ClientGen.Api ClientGen.Document

/-- The declared parameters by slot. -/
structure Declared where
  path : List Parameter := []
  query : List Parameter := []
  header : List Parameter := []

/-- The slots that declarations can name. -/
def declarable : List Slot := [.path, .query, .header]

/-- The parameters of a slot. -/
def Declared.get (d : Declared) : Slot → List Parameter
  | .path => d.path
  | .query => d.query
  | .header => d.header
  | .body => []

/-- Add a parameter at the end of a slot. -/
def Declared.append (d : Declared) (slot : Slot) (p : Parameter) : Declared :=
  match slot with
  | .path => { d with path := d.path ++ [p] }
  | .query => { d with query := d.query ++ [p] }
  | .header => { d with header := d.header ++ [p] }
  | .body => d

/-- The parameter that a declaration describes. It may be left out unless it is required and its schema
does not admit null. -/
def declaredParameter (name : Value) (raw : Value) : Journal Parameter := do
  let schema := Value.orElse (raw.field? "schema") .emptyMap
  let kind ← kindOf schema
  let required := ((raw.field? "required").map Value.isTruthy).getD false
  let nullable ← if required then isNullable schema else pure true
  return {
    kind, nullable, name
    description := cleanDescription? (raw.field? "description")
    enumValues := ← enumValues? schema }

/-- Take in one declaration. -/
def Declared.declare (location : String) (d : Declared) (raw : Value) : Journal Declared := do
  match raw.field? "name", raw.field? "in" with
  | some name, some place =>
    if !place.canBeKey then throw (.misuse .kind)
    match declarable.find? fun slot => place.isStr slot.name with
    | none =>
      Journal.debug .schemas s!"{location}: skipping {place.display} parameter {name.literal}"
      return d
    | some slot =>
      if Parameter.named (d.get slot) name then
        Journal.debug .schemas s!"{location}: duplicate {slot.name} parameter {name.literal} ignored"
        return d
      else return d.append slot (← declaredParameter name raw)
  | _, _ => throw (.defect (.parameterShape location))

/-- The parameters of an operation: those of its path item, then its own. -/
def declaredParameters (pathLevel operationLevel : Value) (location : String) : Journal Declared := do
  let above ← pathLevel.elements
  let own ← operationLevel.elements
  (above ++ own).foldlM (Declared.declare location) {}

end ClientGen.Schema
