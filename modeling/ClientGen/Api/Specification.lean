import ClientGen.Api.Endpoint

/-!
# Specifications

A specification is a document in the form that the generator works on: its servers, security and
components, and its endpoints in the order of their paths.
-/

namespace ClientGen.Api

open ClientGen.Document ClientGen.Schema

/-- A variable part of the base URL. -/
structure ServerVariable where
  name : Value
  default : Option String
  description : Value

/-- The URL that all paths are relative to. -/
structure BaseUrl where
  url : String := ""
  parts : List ServerVariable := []

/-- A security scheme that requests need, with its scopes. -/
structure SecurityRequirement where
  name : Value
  scopes : List Value

/-- The kinds of security schemes. -/
inductive SchemeKind where
  | apiKey | http | mutualTls | oauth2 | openIdConnect
  deriving DecidableEq, Repr

/-- The name of a kind of scheme. -/
def SchemeKind.name : SchemeKind → String
  | apiKey => "apiKey"
  | http => "http"
  | mutualTls => "mutualTLS"
  | oauth2 => "oauth2"
  | openIdConnect => "openIdConnect"

/-- Where an API key travels. -/
inductive KeyLocation where
  | cookie | header | query
  deriving DecidableEq, Repr

/-- The name of a location. -/
def KeyLocation.name : KeyLocation → String
  | cookie => "cookie"
  | header => "header"
  | query => "query"

/-- A declared security scheme. Its texts are kept as the document has them. -/
structure SecurityScheme where
  key : Value
  kind : Option SchemeKind
  name : Value
  location : Option KeyLocation
  scheme : Value
  bearerFormat : Value
  description : Value
  flows : Value
  openIdConnectUrl : Value

/-- The named parts of a document. -/
structure Components where
  schemas : Entries := []
  securitySchemes : List SecurityScheme := []

/-- A document in normal form. -/
structure Specification where
  name : Value
  description : Value
  baseUrl : BaseUrl := {}
  security : List SecurityRequirement := []
  components : Components := {}
  endpoints : List Endpoint := []

/-- The member of a list that has the given name. -/
def withName? {α : Type} (all : List α) (name : α → String) (value : Option Value) : Option α :=
  value.bind fun v => all.find? fun a => v.isStr (name a)

namespace BaseUrl

/-- A server variable. -/
def variableOf? (entry : Value × Value) : Option ServerVariable :=
  if entry.2.isMapping then
    some {
      name := entry.1
      default := match entry.2.field? "default" with
        | none | some .null => none
        | some v => some v.display
      description := (entry.2.field? "description").getD .null }
  else none

/-- The base URL that the first server gives. -/
def ofServers (servers : Value) : Except Fault BaseUrl :=
  match servers with
  | .list (server :: _) =>
    if server.isMapping then do
      let entries ← (Value.orElse (server.field? "variables") .emptyMap).entries
      return {
        url := ((server.field? "url").getD (.str "")).display
        parts := entries.filterMap variableOf? }
    else .ok {}
  | _ => .ok {}

end BaseUrl

/-- The security requirements of one option. -/
def requirementsOf (option : Value) : Journal (List SecurityRequirement) := do
  match option with
  | .map entries =>
    entries.mapM fun (name, scopes) => do
      return ⟨name, ← (Value.orElse (some scopes) (.list [])).elements⟩
  | other =>
    Journal.debug .endpoints s!"Ignoring malformed security requirement {other.literal}"
    return []

/-- The security requirements of a document, those of all options in a row. -/
def securityRequirements (security : Value) : Journal (List SecurityRequirement) := do
  match security with
  | .list options => return (← options.mapM requirementsOf).flatten
  | _ => return []

namespace Components

/-- The entries of a member, sorted by key. -/
def sortedMember (components : Value) (key : String) : Except Fault Entries := do
  let entries ← (Value.orElse (components.field? key) .emptyMap).entries
  match Value.sortOn? (·.1) entries with
  | some sorted => return sorted
  | none => Value.misused .kind

/-- A security scheme. -/
def scheme? (entry : Value × Value) : Option SecurityScheme :=
  let text (key : String) : Value := (entry.2.field? key).getD .null
  if entry.2.isMapping then
    some {
      key := entry.1
      kind := withName? [.apiKey, .http, .mutualTls, .oauth2, .openIdConnect] SchemeKind.name
        (entry.2.field? "type")
      name := text "name"
      location := withName? [.cookie, .header, .query] KeyLocation.name (entry.2.field? "in")
      scheme := text "scheme"
      bearerFormat := text "bearerFormat"
      description := text "description"
      flows := text "flows"
      openIdConnectUrl := text "openIdConnectUrl" }
  else none

/-- The components of a document. Entries that are no mappings are left out. -/
def ofValue (components : Value) : Except Fault Components := do
  if !components.isMapping then return {}
  let schemes ← sortedMember components "securitySchemes"
  let schemas ← sortedMember components "schemas"
  return {
    schemas := schemas.filter fun e => e.2.isMapping
    securitySchemes := schemes.filterMap scheme? }

end Components

namespace Specification

/-- The endpoints of a document, by path and then by method. -/
def endpointsOf (settings : Settings) (document : Value) : Journal (List Endpoint) := do
  let paths ← (Value.orElse (← document.member "paths") .emptyMap).entries
  match Value.sortOn? (·.1) paths with
  | some sorted =>
    return (← sorted.mapM fun (path, item) => Endpoint.ofPathItem settings path item).flatten
  | none => throw (.misuse .kind)

/-- The normal form of a document whose references are expanded. -/
def ofDocument (settings : Settings) (document : Value) : Journal Specification := do
  let info := Value.orElse (← document.member "info") .emptyMap
  let name := (← info.member "title").getD .null
  let description := (← info.member "description").getD .null
  let field (key : String) : Value := (document.field? key).getD .null
  let specification : Specification := {
    name, description
    baseUrl := ← BaseUrl.ofServers (field "servers")
    security := ← securityRequirements (field "security")
    components := ← Components.ofValue (field "components")
    endpoints := ← endpointsOf settings document }
  Journal.info .endpoints (s!"Normalized {specification.endpoints.length} endpoints and " ++
    s!"{specification.components.schemas.length} component schemas")
  return specification

end Specification

end ClientGen.Api
