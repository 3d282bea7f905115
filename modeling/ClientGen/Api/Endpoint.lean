import ClientGen.Api.Address
import ClientGen.Api.Method
import ClientGen.Api.Response
import ClientGen.Naming.Collection
import ClientGen.Naming.Operation
import ClientGen.Path.Template
import ClientGen.Schema.Body
import ClientGen.Schema.Declared
import ClientGen.Settings

/-!
# Endpoints

An endpoint is one operation of a document with everything that the generated request needs: its name
and collection, its parameters by slot and what its success response holds.
-/

namespace ClientGen.Api

open ClientGen.Document ClientGen.Schema ClientGen.Text

/-- One operation of an API. -/
structure Endpoint where
  name : String
  method : Method
  path : String
  segments : List String
  collection : String
  tags : List String := []
  description : Option String := none
  contentType : Option String := none
  response : Option Response := none
  pathParameters : List Parameter := []
  queryParameters : List Parameter := []
  bodyParameters : List Parameter := []
  headerParameters : List Parameter := []

namespace Endpoint

/-- What identifies the endpoint in its specification. -/
def key (e : Endpoint) : String := e.method.name ++ " " ++ e.path

/-- The tag that counts. -/
def primaryTag? (e : Endpoint) : Option String := e.tags.head?

/-- The parameters of a slot. -/
def parameters (e : Endpoint) : Slot → List Parameter
  | .path => e.pathParameters
  | .query => e.queryParameters
  | .body => e.bodyParameters
  | .header => e.headerParameters

end Endpoint

mutual

/-- A parameter and the properties inside it, each with its address. -/
def Parameter.walk (address : Address) : Parameter → List (Address × Parameter)
  | ⟨kind, nullable, name, description, enumValues, properties, parent⟩ =>
    (address, ⟨kind, nullable, name, description, enumValues, properties, parent⟩)
      :: Parameter.walkAll address properties

/-- The properties inside a parameter, with their addresses below that of the parameter. -/
def Parameter.walkAll (address : Address) : List Parameter → List (Address × Parameter)
  | [] => []
  | p :: ps => Parameter.walk (address.child p.name) p ++ Parameter.walkAll address ps

end

namespace Endpoint

/-- Every parameter of the endpoint, nested ones included, with its address. -/
def allParameters (e : Endpoint) : List (Address × Parameter) :=
  Slot.all.flatMap fun slot =>
    (e.parameters slot).flatMap fun p => p.walk ⟨e.key, slot.name, [p.name]⟩

/-- A `parameters` member, which has to be a list if it is there. -/
def parameterList (value : Option Value) (label : String) : Except Fault Value :=
  match value with
  | none => .ok (.list [])
  | some .null => .ok (.list [])
  | some (.list items) => .ok (.list items)
  | some _ => .error (.defect (.parametersNotAList label))

/-- The parameter for a placeholder that no declaration covers. -/
def placeholderParameter (name : String) : Parameter where
  kind := .text
  nullable := false
  name := .str name

/-- Add a parameter for a placeholder of the path unless there is one. -/
def addPlaceholder (label : String) (params : List Parameter) (name : String) :
    Journal (List Parameter) := do
  if Parameter.named params (.str name) then return params
  else
    Journal.warn .endpoints s!"{label}: undeclared path parameter {quoted name} added as string"
    return params ++ [placeholderParameter name]

/-- The name that an operation is given by its document, without blanks around it. -/
def givenName (operation : Value) : String :=
  let given := Value.orElse (operation.field? "operationId")
    (Value.orElse (operation.field? "summary") (.str ""))
  .ofList (trim isBlank given.display.toList)

/-- The tags of an operation. Tags that count as false are left out. -/
def tagsOf (operation : Value) : Except Fault (List String) := do
  let tags ← (Value.orElse (← operation.member "tags") (.list [])).elements
  return (tags.filter Value.isTruthy).map Value.display

/-- The endpoint of an operation. -/
def ofOperation (settings : Settings) (method : String) (path operation pathLevel : Value) :
    Journal Endpoint := do
  let label := .ofList (upper method.toList) ++ " " ++ path.display
  let some httpMethod := Method.ofName? method | throw (.defect (.unsupportedMethod label))
  let tags ← tagsOf operation
  let given := givenName operation
  let name ←
    if given = "" then do pure (Naming.operationName method (← path.asText))
    else pure given
  let own ← parameterList (operation.field? "parameters") label
  let declared ← declaredParameters pathLevel own label
  -- The declared names of the path are gathered in a set, so each has to be usable as a key.
  if !declared.path.all (·.name.canBeKey) then throw (.misuse .kind)
  let path ← path.asText
  let pathParameters ←
    (Path.placeholders path.toList).foldlM (addPlaceholder label) declared.path
  let (contentType, bodyParameters) ←
    requestBody ((operation.field? "requestBody").getD .null) label
  let table := settings.tables.envelopeTargets
  let response ←
    match ← Response.successSchema? operation with
    | some schema => Response.ofSchema table schema
    | none => pure .none
  let stripped := trim (· == '/') path.toList
  return {
    name, path, tags, contentType, pathParameters, bodyParameters
    method := httpMethod
    segments := if stripped.isEmpty then [] else (splitOn '/' stripped).map String.ofList
    collection :=
      Naming.collection path tags.head? settings.tables.pathCollections settings.fallbackResource
    description := cleanDescription? (operation.field? "description")
    response := match response with
      | .none => none
      | held => some held
    queryParameters := declared.query
    headerParameters := declared.header }

/-- The operations of a path item in the order in which they are taken up. -/
def operationMethods : List String :=
  ["get", "post", "put", "patch", "delete", "head", "options", "trace"]

/-- The endpoints of a path item. -/
def ofPathItem (settings : Settings) (path item : Value) : Journal (List Endpoint) := do
  if !item.isMapping then throw (.defect (.pathItemNotAMapping path))
  let pathLevel ← parameterList (item.field? "parameters") path.display
  let operations := operationMethods.filterMap fun method =>
    (item.field? method).map fun operation => (method, operation)
  operations.mapM fun (method, operation) => do
    if !operation.isMapping then
      let label := .ofList (upper method.toList) ++ " " ++ path.display
      throw (.defect (.operationNotAMapping label))
    ofOperation settings method path operation pathLevel

end Endpoint

end ClientGen.Api
