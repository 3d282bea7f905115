import ClientGen.Api.Parameter
import ClientGen.Document.Order
import ClientGen.Schema.Literals
import ClientGen.Schema.Merge

/-!
# Request bodies

The schema of a request body becomes a list of body parameters, one for each property. A property that
refers to an object schema is flattened: its own properties take its place, each under the joint name
and never required. The flattening goes one level deep. An inline object stays one parameter that keeps
its properties.
-/

namespace ClientGen.Schema

open ClientGen.Api ClientGen.Document

/-- The content types that a body is read from, the preferred one first. -/
def bodyContentTypes : List String :=
  ["application/json", "application/x-www-form-urlencoded", "multipart/form-data"]

/-- Is the property left out of requests? -/
def isReadOnly (schema : Value) : Bool := ((schema.field? "readOnly").map Value.isTruthy).getD false

/-- Is the property a schema that requests can send? -/
def isSendable (schema : Value) : Bool := schema.isMapping && !isReadOnly schema

/-- The names that an object schema requires. -/
def requiredNames (schema : Value) : Except Fault (List Value) := do
  ((← schema.member "required").getD (.list [])).keysOf

/-- The parameter for a property of a referenced object. -/
def flattenedParameter (parent name schema : Value) : Journal Parameter := do
  return {
    kind := ← kindOf schema
    nullable := true
    name := .str (parent.display ++ "_" ++ name.display)
    description := cleanDescription? (schema.field? "description")
    enumValues := ← enumValues? schema
    parent := some parent }

mutual

/-- The parameter for a property of an object; an inline object keeps its properties. -/
def propertyParameter (name schema : Value) (required : Bool) : Journal Parameter := do
  let kind ← kindOf schema
  let properties ←
    if kind = .mapping && !isReference schema then
      match merged : merge schema with
      | .error e => throw e
      | .ok object =>
        let names ← requiredNames object
        match stated : object.field? "properties" with
        | some (.map entries) =>
          nestedParameters names schema.depth entries fun e he =>
            merge_depth schema merged _ stated _ rfl e he
        | some other => if other.isTruthy then throw (.misuse .member) else pure []
        | none => pure []
    else pure []
  let nullable ← if required then isNullable schema else pure true
  return {
    kind, nullable, name, properties
    description := cleanDescription? (schema.field? "description")
    enumValues := ← enumValues? schema }
termination_by (schema.depth + 1, 0)
decreasing_by exact Prod.Lex.left _ _ (Nat.lt_succ_self _)

/-- The parameters for the properties of an inline object that requests can send. -/
def nestedParameters (required : List Value) (bound : Nat) (entries : Entries)
    (inside : ∀ e ∈ entries, e.2.depth < bound) : Journal (List Parameter) :=
  match entries with
  | [] => pure []
  | (name, schema) :: rest => do
    have : schema.depth < bound := inside (name, schema) List.mem_cons_self
    have others : ∀ e ∈ rest, e.2.depth < bound := fun e he => inside e (List.mem_cons_of_mem _ he)
    if isSendable schema then
      let first ← propertyParameter name schema (required.contains name)
      return first :: (← nestedParameters required bound rest others)
    else nestedParameters required bound rest others
termination_by (bound, entries.length + 1)
decreasing_by all_goals simp only [Prod.lex_def, List.length_cons, true_and]; omega

end

/-- Add a parameter unless its name is taken. -/
def addParameter (location : String) (params : List Parameter) (p : Parameter) :
    Journal (List Parameter) := do
  if Parameter.named params p.name then
    Journal.debug .schemas s!"{location}: duplicate body parameter {p.name.literal} ignored"
    return params
  else return params ++ [p]

/-- The properties that take the place of a property: those of the object schema it refers to, unless
that has none. -/
def flattenedProperties? (schema : Value) : Except Fault (Option Entries) := do
  if isReference schema && !isOpen schema then
    match ← (← merge schema).member "properties" with
    | some properties => if properties.isTruthy then return some (← properties.entries) else return none
    | none => return none
  else return none

/-- Add the parameters for one property of the body. -/
def addProperty (location : String) (required : List Value) (params : List Parameter)
    (property : Value × Value) : Journal (List Parameter) := do
  let (name, schema) := property
  if !isSendable schema then return params
  match ← flattenedProperties? schema with
  | some children =>
    children.foldlM
      (fun params child => do addParameter location params (← flattenedParameter name child.1 child.2))
      params
  | none => addParameter location params (← propertyParameter name schema (required.contains name))

/-- The parameter for a body that is a list. -/
def listBody : Parameter where
  kind := .sequence
  nullable := false
  name := .str "body"
  description := some "Request body (array)"

/-- The body parameters for a schema. -/
def bodyParameters (schema : Value) (location : String) : Journal (List Parameter) := do
  if let some ref := openRef? schema then
    Journal.warn .schemas s!"{location}: body schema {ref} is unresolved; no body parameters"
    return []
  -- A list is sent as a whole.
  if (← kindOf schema) = .sequence && (schema.field? "properties").isNone then
    return [listBody]
  let object ← merge schema
  let required ← requiredNames object
  let properties ← (Value.orElse (← object.member "properties") .emptyMap).entries
  properties.foldlM (addProperty location required) []

/-- The content type of a request body and its parameters. A body without a content type that can be
read has none of either. -/
def requestBody (body : Value) (location : String) : Journal (Option String × List Parameter) := do
  if !body.isMapping then return (none, [])
  let content := Value.orElse (body.field? "content") .emptyMap
  match ← bodyContentTypes.findM? fun t => (content.mentions t : Journal Bool) with
  | some contentType =>
    let media := Value.orElse (some (← content.part contentType)) .emptyMap
    match ← media.member "schema" with
    | some schema =>
      if schema.isTruthy then return (some contentType, ← bodyParameters schema location)
      else return (some contentType, [])
    | none => return (some contentType, [])
  | none =>
    if content.isTruthy then
      match Value.sortOn? id (← content.elements) with
      | some keys =>
        Journal.debug .schemas
          s!"{location}: no supported body content type in {(Value.list keys).literal}"
      | none => throw (.misuse .kind)
    return (none, [])

end ClientGen.Schema
