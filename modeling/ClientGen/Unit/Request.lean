import ClientGen.Text.Embedded
import ClientGen.Text.Wrap
import ClientGen.Unit.Argument
import ClientGen.Unit.Import

/-!
# Request units

A request unit holds the class of one endpoint's requests: its method and path, its arguments as
attributes, the builders of its body, query and headers, and how its response is decoded.
-/

namespace ClientGen.Unit

open ClientGen.Api ClientGen.Enumeration ClientGen.Naming ClientGen.Text

/-- A method that builds the values of one slot: the names as they are sent, with the expressions for
their values. -/
structure Builder where
  method : String
  entries : List (String × String)

/-- How a response is decoded: with a class into one object or a list, unwrapping a property first, or
passed through. -/
inductive Decoder where
  | object (className : String) (property : Option String)
  | array (className : String) (property : Option String)
  | raw

/-- The parts of a request unit. -/
structure Request where
  endpointName : String
  description : Option String
  className : String
  method : Method
  bodyFormat : Option String
  arguments : List Argument
  urlFormat : String
  builders : List Builder
  imports : List Import
  decoder : Option Decoder

namespace Request

/-- The slots with a builder, and the builders' names. -/
def builderMethods : List (Slot × String) :=
  [(.body, "default_body"), (.query, "default_query"), (.header, "default_headers")]

/-- The builders of the slots that have arguments. -/
def buildersOf (arguments : List Argument) : List Builder :=
  (builderMethods.map fun (slot, method) =>
    { method, entries := (arguments.filter (·.slot == slot)).map fun a => (a.key, a.valueText) : Builder })
    |>.filter (! ·.entries.isEmpty)

/-- How a body of a content type is sent. -/
def bodyFormats : List (String × String) := [
  ("application/json", "json"),
  ("application/x-www-form-urlencoded", "form"),
  ("multipart/form-data", "multipart")]

/-- The local name of the decoded class, which gives way to a request class of the same name. -/
def localDto (dto className : String) : String := if dto = className then dto ++ "Dto" else dto

/-- The import of the decoded class. -/
def dtoImport (settings : Settings) (dto className : String) : Import :=
  let imported : Imported :=
    ⟨dto, if localDto dto className = dto then none else some (localDto dto className)⟩
  classImport settings.namespaceName settings.dtoFolder imported

/-- The imports of a request unit after the first block. -/
def importsOf (settings : Settings) (enums : List String) (dto? : Option String) (className : String) :
    List Import :=
  supportImport settings.namespaceName ["Method", "Request"]
    :: (enums.map fun name => classImport settings.namespaceName settings.enumFolder ⟨name, none⟩)
    ++ (dto?.map fun dto => dtoImport settings dto className).toList

/-- The decoder for a response. -/
def decoderOf (className : String) : Response → Decoder
  | .object dto _ property => .object (localDto dto className) (property.filter (· != ""))
  | .array dto _ property => .array (localDto dto className) (property.filter (· != ""))
  | _ => .raw

/-- The request unit of an endpoint. -/
def ofEndpoint (settings : Settings) (endpoint : Endpoint) (resolved : ResolvedName)
    (registry : Registry) : Except Fault Request := do
  let arguments ← Argument.ofEndpoint endpoint resolved registry
  let className := resolved.requestClass
  let dto? := (endpoint.response.bind Response.dto?).filter (· != "")
  return {
    endpointName := endpoint.name
    description := endpoint.description
    className
    method := endpoint.method
    bodyFormat :=
      if endpoint.method.hasBody then
        some ((bodyFormats.lookup (endpoint.contentType.getD "")).getD "json")
      else none
    arguments
    urlFormat := ← Unit.urlFormat endpoint resolved
    builders := buildersOf arguments
    imports := importsOf settings (Argument.enumNames arguments) dto? className
    decoder := endpoint.response.map (decoderOf className) }

/-- The lines of a builder. -/
def builderLines (b : Builder) : List String :=
  ["", "    def " ++ b.method ++ "(self) -> dict[str, Any]:", "        values = \x7b"]
    ++ (b.entries.map fun (key, value) => "            " ++ quoted key ++ ": " ++ value ++ ",")
    ++ ["        \x7d",
      "        return \x7bkey: value for key, value in values.items() if value is not None\x7d"]

/-- The first line of the decoding method. -/
def decoderHead (result : String) : String :=
  "    def create_dto_from_response(self, response: httpx.Response) -> " ++ result ++ ":"

/-- The lines of the decoding method. -/
def decoderLines : Decoder → List String
  | .object className property =>
    ["", decoderHead className, "        data = response.json() or \x7b\x7d"]
      ++ (property.map fun p => "        data = data.get(" ++ quoted p ++ ") or \x7b\x7d").toList
      ++ ["        return " ++ className ++ ".from_dict(data)"]
  | .array className property =>
    ["", decoderHead ("list[" ++ className ++ "]"),
      match property with
      | some p => "        data = (response.json() or \x7b\x7d).get(" ++ quoted p ++ ") or []"
      | none => "        data = response.json() or []",
      "        return [" ++ className ++ ".from_dict(item) for item in data]"]
  | .raw => ["", decoderHead "Any", "        return response.json()"]

/-- The lines of the constructor. -/
def constructorLines (arguments : List Argument) : List String :=
  if arguments.isEmpty then []
  else
    ["", "    def __init__(", "        self,"] ++ Argument.declarations arguments
      ++ ["    ) -> None:"]
      ++ arguments.map fun a => "        self." ++ a.name ++ " = " ++ a.name

/-- The documentation at the top of the unit. -/
def headLines (r : Request) : List String :=
  ["\x22\x22\x22" ++ docText r.endpointName]
    ++ (match r.description with
      | some description =>
        if description = "" then [] else ["", docText (wrap 76 description)]
      | none => [])
    ++ ["\x22\x22\x22"]

/-- The lines of the unit. -/
def lines (r : Request) : List String :=
  r.headLines
    ++ ["", lazyAnnotations.text, "", anyImport.text]
    ++ (if r.decoder.isSome then ["", clientImport.text] else [])
    ++ "" :: r.imports.map Import.text
    ++ ["", "", "class " ++ r.className ++ "(Request):", "    " ++ docQuoted (docText r.endpointName), "",
      "    method = Method." ++ r.method.name]
    ++ (r.bodyFormat.map fun format => "    body_format = " ++ quoted format).toList
    ++ constructorLines r.arguments
    ++ ["", "    def resolve_endpoint(self) -> str:", "        return f\x22" ++ r.urlFormat ++ "\x22"]
    ++ r.builders.flatMap builderLines
    ++ (r.decoder.map decoderLines).getD []

/-- The text of the unit. -/
def text (r : Request) : String := unlines r.lines

/-- The path of the unit. -/
def path (settings : Settings) (resolved : ResolvedName) : String :=
  unitPath [settings.requestFolder, resolved.resourceClass] resolved.requestClass

end Request

end ClientGen.Unit
