import ClientGen.Api.Endpoint
import ClientGen.Naming.Fresh

/-!
# Resolved names

The final identifiers of every endpoint. Endpoints of one resource share a class and a folder, so their
methods and their request classes have to differ: the first endpoint that claims a name keeps it, and a
later one takes the name with `Duplicate` and a number after it. The numbers count up within a resource.
The arguments of one endpoint differ across all its slots.
-/

namespace ClientGen.Naming

open ClientGen.Api ClientGen.Document ClientGen.Text

/-- The identifiers of an endpoint. -/
structure ResolvedName where
  resourceClass : String
  methodName : String
  requestClass : String
  arguments : Dictionary (Slot × String) String
  renamedFrom : Option String

/-- A renaming: in a resource, the wanted name was taken and another was chosen. -/
structure Collision where
  resource : String
  wanted : String
  chosen : String
  deriving DecidableEq, Repr

/-- The warning about a renaming. -/
def Collision.message (c : Collision) : String :=
  s!"{c.resource}: duplicate method name {quoted c.wanted} renamed to {quoted c.chosen}"

/-- The identifiers that the endpoints of a resource have claimed, and the last number handed out. -/
structure Claims where
  methods : List String := []
  classes : List String := []
  counter : Nat := 0

namespace Claims

/-- Is the method name, or the request class that goes with it, claimed? -/
def taken (c : Claims) (name : String) : Bool :=
  c.methods.contains name || c.classes.contains (Naming.requestClass name)

/-- A name with a number that marks it as a duplicate. -/
def duplicate (base : String) (n : Nat) : String := base ++ "Duplicate" ++ toString n

/-- The name for an endpoint that wants `base`, and the last number handed out then. -/
def choose (c : Claims) (base : String) : String × Nat :=
  if c.taken base then
    let n := firstFree c.taken (duplicate base) (c.methods.length + c.classes.length) (c.counter + 1)
    (duplicate base n, n)
  else (base, c.counter)

/-- The claims after a name was chosen. -/
def claim (c : Claims) (choice : String × Nat) : Claims where
  methods := choice.1 :: c.methods
  classes := Naming.requestClass choice.1 :: c.classes
  counter := choice.2

end Claims

/-- Names that a generated request class defines itself. -/
def requestMembers : List String := [
  "method", "body_format", "resolve_endpoint", "default_body", "default_query", "default_headers",
  "create_dto_from_response"]

/-- The argument names chosen so far. -/
abbrev Arguments := Dictionary (Slot × String) String

/-- The argument name for a parameter, when the names in `used` are taken. -/
def freshArgument (used : List String) (slot : Slot) (name : String) : String :=
  let plain := argumentName name
  let own := if requestMembers.contains plain then plain ++ "_" else plain
  let base := if used.contains own then own ++ "_" ++ slot.name else own
  fresh used (numbered base "") 1

/-- Choose the argument name for a parameter that is not left out. The names in use come along. -/
def addArgument (settings : Settings) (slot : Slot) (state : Arguments × List String)
    (p : Parameter) : Except Fault (Arguments × List String) := do
  if settings.ignores slot p.name then return state
  else
    let name ← p.name.asText
    let chosen := freshArgument state.2 slot name
    return (state.1.put (slot, name) chosen, chosen :: state.2)

/-- The argument names of an endpoint. -/
def argumentsOf (settings : Settings) (endpoint : Endpoint) : Except Fault Arguments := do
  let passed := Slot.passing.flatMap fun slot => (endpoint.parameters slot).map fun p => (slot, p)
  return (← passed.foldlM (fun state (slot, p) => addArgument settings slot state p) ([], [])).1

/-- What is known after some endpoints: the claims of each resource, the names and the renamings. -/
structure Resolution where
  claims : Dictionary String Claims := []
  names : Dictionary String ResolvedName := []
  collisions : List Collision := []

/-- Resolve the names of a further endpoint. -/
def Resolution.add (settings : Settings) (r : Resolution) (endpoint : Endpoint) :
    Journal Resolution := do
  let collection := if endpoint.collection = "" then settings.fallbackResource else endpoint.collection
  let resource := Naming.resourceClass collection
  let claims := (r.claims.get? resource).getD {}
  let base := Naming.methodName endpoint.name
  let choice := claims.choose base
  let name := choice.1
  let renamed := name != base
  let collision : Collision := ⟨resource, base, name⟩
  if renamed then Journal.debug .names s!"{collision.message} ({endpoint.key})"
  let resolved : ResolvedName := {
    resourceClass := resource
    methodName := name
    requestClass := Naming.requestClass name
    arguments := ← argumentsOf settings endpoint
    renamedFrom := if renamed then some base else none }
  return {
    claims := r.claims.put resource (claims.claim choice)
    names := r.names.put endpoint.key resolved
    collisions := if renamed then r.collisions ++ [collision] else r.collisions }

/-- Resolve the names of endpoints, in order. -/
def resolve (settings : Settings) (endpoints : List Endpoint) : Journal Resolution :=
  endpoints.foldlM (Resolution.add settings) {}

end ClientGen.Naming
