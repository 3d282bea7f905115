import ClientGen.Document.Access
import ClientGen.Journal
import ClientGen.Naming.Identifier
import ClientGen.Schema.Reference
import ClientGen.Tables.Basic

/-!
# Success responses

What the success response of an operation holds. A reference to a component schema, or a list of them,
is what it says. An inline object is looked through for a well-known envelope property, in the order of
the table of such properties. Everything else is passed through as it is, or holds nothing usable.
-/

namespace ClientGen.Api

open ClientGen.Document ClientGen.Schema

/-- What a response holds. A class may have been implied by an envelope property; then the response
keeps the schema found there and, if the value has to be unwrapped, the property. -/
inductive Response where
  | none
  | object (dto : String) (schema : Option Value) (property : Option String)
  | array (dto : String) (schema : Option Value) (property : Option String)
  | inline (schema : Value)

namespace Response

/-- The name of the kind of response. -/
def kindName : Response → String
  | none => "none"
  | object .. => "dto"
  | array .. => "array"
  | inline _ => "inline"

/-- The class that the response is decoded into. -/
def dto? : Response → Option String
  | object dto _ _ | array dto _ _ => some dto
  | _ => Option.none

/-- The schema that the response keeps. -/
def schema? : Response → Option Value
  | object _ schema _ | array _ schema _ => schema
  | inline schema => some schema
  | none => Option.none

/-- The property that the response unwraps. -/
def property? : Response → Option String
  | object _ _ property | array _ _ property => property
  | _ => Option.none

/-- Does the schema have the given type? -/
def hasType (schema : Value) (type : String) : Bool :=
  ((schema.field? "type").map (·.isStr type)).getD false

/-- The class of the component schema that a node refers to. -/
def referencedClass? (schema : Value) : Option String :=
  ((referenceName? schema).filter (· != "")).map Naming.dtoClass

/-- The mapping under a key. -/
def mapping? (schema : Value) (key : String) : Option Value :=
  (schema.field? key).filter Value.isMapping

/-- A schema that cannot be sorted in is passed through if it describes an object. -/
def fallback (schema : Value) (reason : String) : Journal Response := do
  let response :=
    if (mapping? schema "properties").isSome || hasType schema "object" then inline schema else none
  Journal.debug .responses s!"Response classified as {response.kindName}: {reason}"
  return response

/-- The response that an envelope with these properties is. -/
def ofEnvelope? (table : Dictionary String EnvelopeTarget) (properties : Value) : Option Response :=
  table.findSome? fun (name, target) =>
    (properties.field? name).map fun held =>
      let schema := if held.isMapping then some held else Option.none
      if target.isArray then array target.dto schema (some name) else object target.dto schema (some name)

/-- The response that a list of such items is. -/
def ofItems (table : Dictionary String EnvelopeTarget) (items : Value) : Response :=
  match referencedClass? items with
  | some dto => array dto Option.none Option.none
  | Option.none =>
    match mapping? items "properties" with
    | Option.none => none
    | some properties =>
      match table.find? fun (name, target) => target.isArray && (properties.field? name).isSome with
      | some (_, target) => array target.dto (some items) Option.none
      | Option.none => none

/-- The keywords of composed schemas. -/
def compositions : List String := ["allOf", "oneOf", "anyOf"]

/-- What a response with the given schema holds. -/
def ofSchema (table : Dictionary String EnvelopeTarget) (schema : Value) : Journal Response := do
  if !schema.isTruthy then return none
  if let some dto := referencedClass? schema then return object dto Option.none Option.none
  match (← schema.member "properties").getD .null with
  | .null =>
    if hasType schema "array" then
      return ((mapping? schema "items").map (ofItems table)).getD none
    else if compositions.any fun key => (schema.field? key).isSome then
      fallback schema "composed response schema"
    else if hasType schema "object" then return inline schema
    else return none
  | properties =>
    if properties.isMapping then return (ofEnvelope? table properties).getD (inline schema)
    else fallback schema "'properties' is not a mapping"

/-- The JSON schema of an operation's success response, if it has one that says something. -/
def successSchema? (operation : Value) : Except Fault (Option Value) := do
  let responses ← (Value.orElse (← operation.member "responses") .emptyMap).entries
  let success := (responses.get? (.str "200")).or (responses.get? (.int 200))
  match success with
  | some (.map success) =>
    let content := Value.orElse (Dictionary.get? success (.str "content")) .emptyMap
    match ← content.member "application/json" with
    | some (.map media) =>
      return (Dictionary.get? media (.str "schema")).filter fun s => s.isMapping && s.isTruthy
    | _ => return Option.none
  | _ => return Option.none

end Response

end ClientGen.Api
