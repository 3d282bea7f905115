import ClientGen.Unit.Dto
import ClientGen.Unit.Enumeration
import ClientGen.Unit.Request
import ClientGen.Unit.Resource

/-!
# The units of a client

A specification with its registry and its resolved names becomes a set of units: one for each endpoint,
each resource, each enumeration and each data class, in the order of their paths.
-/

namespace ClientGen.Unit

open ClientGen.Api ClientGen.Document ClientGen.Enumeration ClientGen.Naming ClientGen.Text

/-- Texts by unit path. -/
abbrev Units := Dictionary String String

/-- Does a component schema describe objects? -/
def describesObject (schema : Value) : Bool :=
  (schema.field? "enum").isNone &&
    (Response.hasType schema "object" || (schema.field? "properties").isSome
      || (schema.field? "allOf").isSome)

/-- Add the data class of a component schema. The first schema of a class counts. -/
def addComponentDto (dtos : Dictionary String Value) (entry : Value × Value) :
    Journal (Dictionary String Value) := do
  let (name, schema) := entry
  if !describesObject schema then return dtos
  let className := dtoClass (← name.asText)
  if dtos.has className then
    Journal.warn .units (s!"Schema {name.literal} maps to DTO class {quoted className}, " ++
      "already used by another schema; skipped")
    return dtos
  else return dtos.put className schema

/-- The schema of the objects in a response: that of its items if it is a list. -/
def objectSchema (response : Response) : Value :=
  let schema := response.schema?.getD .emptyMap
  let source :=
    if Response.hasType schema "array" then Value.orElse (schema.field? "items") .emptyMap else schema
  if source.isMapping then source else .emptyMap

/-- Add the data class that a response implies, unless it is there. -/
def addResponseDto (dtos : Dictionary String Value) (endpoint : Endpoint) :
    Journal (Dictionary String Value) := do
  let some response := endpoint.response | return dtos
  let some className := response.dto? | return dtos
  if dtos.has className then return dtos
  else
    Journal.debug .units s!"{endpoint.key}: DTO {className} has no component schema"
    return dtos.put className (objectSchema response)

/-- The data classes of a specification with their schemas, by name: those of the components and those
that responses imply. -/
def dtosOf (specification : Specification) : Journal (Dictionary String Value) := do
  let components ← specification.components.schemas.foldlM addComponentDto []
  let all ← specification.endpoints.foldlM addResponseDto components
  return all.mergeSort fun a b => decide (a.1 ≤ b.1)

/-- The endpoints of each resource with their names, in the order of first occurrence. -/
abbrev Groups := Dictionary String (List (Endpoint × ResolvedName))

/-- The unit of an endpoint's requests. -/
def requestUnit (settings : Settings) (registry : Registry) (endpoint : Endpoint)
    (resolved : ResolvedName) : Except Fault (String × String) := do
  return (Request.path settings resolved,
    (← Request.ofEndpoint settings endpoint resolved registry).text)

/-- The unit of a resource. -/
def resourceUnit (settings : Settings) (registry : Registry) (className : String)
    (members : List (Endpoint × ResolvedName)) : Except Fault (String × String) := do
  return (Resource.path settings className,
    (← Resource.ofMembers settings className members registry).text)

/-- The unit of an enumeration. -/
def enumUnit (settings : Settings) (d : Definition) : Except Fault (String × String) := do
  return (EnumUnit.path settings d.name, (← EnumUnit.ofDefinition d).text)

/-- The unit of a data class. -/
def dtoUnit (settings : Settings) (registry : Registry) (name : String) (schema : Value) :
    Journal (String × String) := do
  return (Dto.path settings name, (← Dto.ofSchema name registry schema).text settings)

/-- The endpoints with their resolved names. -/
def namedEndpoints (specification : Specification) (names : Dictionary String ResolvedName) :
    Except Fault (List (Endpoint × ResolvedName)) :=
  specification.endpoints.mapM fun endpoint =>
    match names.get? endpoint.key with
    | some resolved => .ok (endpoint, resolved)
    | none => .error (.misuse .key)

/-- Put an endpoint into the group of its resource. -/
def addMember (groups : Groups) (member : Endpoint × ResolvedName) : Groups :=
  let resource := member.2.resourceClass
  groups.put resource ((groups.get? resource).getD [] ++ [member])

/-- All units of a specification, in the order of their paths. -/
def unitsOf (settings : Settings) (specification : Specification) (registry : Registry)
    (names : Dictionary String ResolvedName) : Journal Units := do
  let members ← namedEndpoints specification names
  let requests ← members.mapM fun (endpoint, resolved) =>
    (requestUnit settings registry endpoint resolved : Except Fault _)
  let resources ← (members.foldl addMember []).mapM fun (className, group) =>
    (resourceUnit settings registry className group : Except Fault _)
  let enums ← registry.definitions.values.mapM fun d => (enumUnit settings d : Except Fault _)
  let dtos ← (← dtosOf specification).mapM fun (name, schema) => dtoUnit settings registry name schema
  let units := Dictionary.ofEntries (requests ++ resources ++ enums ++ dtos)
  return units.mergeSort fun a b => decide (a.1 ≤ b.1)

end ClientGen.Unit
