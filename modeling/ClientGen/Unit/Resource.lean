import ClientGen.Text.Embedded
import ClientGen.Unit.Argument
import ClientGen.Unit.Import

/-!
# Resource units

A resource unit holds the class that offers the endpoints of a collection as methods. Each method sends
the request of its endpoint with the arguments that it was given.
-/

namespace ClientGen.Unit

open ClientGen.Api ClientGen.Enumeration ClientGen.Naming ClientGen.Text

/-- A method of a resource. -/
structure ResourceMethod where
  name : String
  requestClass : String
  localName? : Option String
  renamedFrom : Option String
  endpointName : String
  arguments : List Argument

/-- The parts of a resource unit. -/
structure Resource where
  className : String
  imports : List Import
  methods : List ResourceMethod

namespace Resource

/-- The method for an endpoint. A request class with the name of the resource gets an alias. -/
def methodOf (className : String) (registry : Registry) (member : Endpoint × ResolvedName) :
    Except Fault ResourceMethod := do
  let (endpoint, resolved) := member
  return {
    name := resolved.methodName
    requestClass := resolved.requestClass
    localName? := if resolved.requestClass = className then some (resolved.requestClass ++ "Alias") else none
    renamedFrom := resolved.renamedFrom
    endpointName := endpoint.name
    arguments := ← Argument.ofEndpoint endpoint resolved registry }

/-- The imports of a resource unit after the first block. -/
def importsOf (settings : Settings) (className : String) (methods : List ResourceMethod) : List Import :=
  supportImport settings.namespaceName ["BaseResource"]
    :: ((Argument.enumNames (methods.flatMap (·.arguments))).map fun name =>
      classImport settings.namespaceName settings.enumFolder ⟨name, none⟩)
    ++ methods.map fun m =>
      .names (dotted [settings.namespaceName, settings.requestFolder, className, m.requestClass])
        [⟨m.requestClass, m.localName?⟩]

/-- The resource unit of the endpoints of a collection. -/
def ofMembers (settings : Settings) (className : String) (members : List (Endpoint × ResolvedName))
    (registry : Registry) : Except Fault Resource := do
  let methods ← members.mapM (methodOf className registry)
  return { className, methods, imports := importsOf settings className methods }

/-- The arguments passed on to a request. -/
def passedOn (arguments : List Argument) : String :=
  ", ".intercalate (arguments.map fun a => a.name ++ "=" ++ a.name)

/-- The lines of a method. -/
def methodLines (m : ResourceMethod) : List String :=
  (m.renamedFrom.map fun wanted =>
    "    # Renamed from " ++ wanted ++ ": duplicate method name in this resource").toList
    ++ ["    def " ++ m.name ++ "(", "        self,"]
    ++ Argument.declarations m.arguments
    ++ ["    ) -> httpx.Response:", "        " ++ docQuoted (docText m.endpointName),
      "        return self.connector.send(",
      "            " ++ m.localName?.getD m.requestClass ++ "(" ++ passedOn m.arguments ++ ")", "        )"]

/-- The lines of the methods, with an empty line between two of them. -/
def methodsLines : List ResourceMethod → List String
  | [] => []
  | [m] => methodLines m
  | m :: more => methodLines m ++ "" :: methodsLines more

/-- The lines of the unit. -/
def lines (r : Resource) : List String :=
  [docQuoted (r.className ++ " resource."), "", lazyAnnotations.text, "", anyImport.text, "",
      clientImport.text, ""]
    ++ r.imports.map Import.text
    ++ ["", "", "class " ++ r.className ++ "(BaseResource):"]
    ++ methodsLines r.methods

/-- The text of the unit. -/
def text (r : Resource) : String := unlines r.lines

/-- The path of the unit. -/
def path (settings : Settings) (className : String) : String :=
  unitPath [settings.resourceFolder] className

end Resource

end ClientGen.Unit
