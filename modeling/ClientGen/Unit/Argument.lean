import ClientGen.Enumeration.Registry
import ClientGen.Naming.Resolved
import ClientGen.Text.Embedded

/-!
# Arguments of generated calls

The arguments that a request is built from and a resource's method passes on, one for each parameter
that is not left out, in the order path, body, query, header.
-/

namespace ClientGen.Unit

open ClientGen.Api ClientGen.Document ClientGen.Enumeration ClientGen.Naming

/-- An argument of a request. -/
structure Argument where
  name : String
  typeText : String
  optional : Bool
  slot : Slot
  key : String
  enum? : Option String

namespace Argument

/-- The argument for a parameter, if the parameter has an argument name. -/
def ofParameter? (endpoint : Endpoint) (resolved : ResolvedName) (registry : Registry) (slot : Slot)
    (p : Parameter) : Except Fault (Option Argument) :=
  match p.name with
  | .str key =>
    match resolved.arguments.get? (slot, key) with
    | none => .ok none
    | some name => do
      let enum? ←
        if p.hasEnum then pure (some (← registry.nameAt ⟨endpoint.key, slot.name, [p.name]⟩))
        else pure none
      let type := (enum?.filter (· != "")).getD p.kind.typeText
      return some {
        name, slot, key, enum?
        typeText := if p.nullable then type ++ " | None" else type
        optional := p.nullable }
  | _ => .ok none

/-- The arguments of an endpoint. -/
def ofEndpoint (endpoint : Endpoint) (resolved : ResolvedName) (registry : Registry) :
    Except Fault (List Argument) := do
  let passed := Slot.passing.flatMap fun slot => (endpoint.parameters slot).map fun p => (slot, p)
  return (← passed.mapM fun (slot, p) => ofParameter? endpoint resolved registry slot p).filterMap id

/-- The declaration of the argument in a signature. -/
def declaration (a : Argument) : String :=
  a.name ++ ": " ++ a.typeText ++ (if a.optional then " = None" else "") ++ ","

/-- The declarations in a signature, where all arguments are passed by name. -/
def declarations (arguments : List Argument) : List String :=
  if arguments.isEmpty then [] else "        *," :: arguments.map fun a => "        " ++ a.declaration

/-- The expression for the value that is sent. -/
def valueText (a : Argument) : String :=
  let stored := "self." ++ a.name
  match a.enum? with
  | none => stored
  | some _ =>
    if a.optional then stored ++ ".value if " ++ stored ++ " is not None else None"
    else stored ++ ".value"

/-- The names of the enumerations that arguments have, sorted and each once. -/
def enumNames (arguments : List Argument) : List String :=
  ((arguments.filterMap (·.enum?)).eraseDups).mergeSort (· ≤ ·)

end Argument

/-- The text of a piece of a path inside a formatted string: a placeholder reads the attribute of its
argument. -/
def pieceText (resolved : ResolvedName) : Path.Piece → Except Fault String
  | .text cs => .ok (.ofList (Text.formatText cs))
  | .placeholder name =>
    match resolved.arguments.get? (.path, .ofList name) with
    | some argument => .ok ("\x7bself." ++ argument ++ "\x7d")
    | none => .error (.misuse .key)

/-- The formatted string that builds the path of an endpoint. -/
def urlFormat (endpoint : Endpoint) (resolved : ResolvedName) : Except Fault String := do
  let segments ← endpoint.segments.mapM fun segment => do
    return String.join (← (Path.pieces segment.toList).mapM (pieceText resolved))
  return "/" ++ "/".intercalate segments

end ClientGen.Unit
