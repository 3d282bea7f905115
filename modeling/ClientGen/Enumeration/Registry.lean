import ClientGen.Api.Specification
import ClientGen.Enumeration.Signature

/-!
# The registry of enumerations

Every enumeration of a specification is found, in component schemas and in parameters at any depth, and
given one name. Each occurrence proposes names with a rank: a well-known parameter name proposes the
best, a shared concept the next and its context the last. An enumeration gets the best name proposed by
any of its occurrences that no other enumeration took before; they choose in the order of their best
proposals, so what is found first has no advantage.
-/

namespace ClientGen.Enumeration

open ClientGen.Api ClientGen.Document ClientGen.Schema ClientGen.Text

/-- A proposed name with its rank; a lower rank is better. -/
abbrev Proposal := Nat × String

/-- Does the first proposal come before the second, or are they equal? -/
def Proposal.le (p q : Proposal) : Bool := p.1 < q.1 || (p.1 == q.1 && decide (p.2 ≤ q.2))

/-- A place where an enumeration occurs. -/
structure Occurrence where
  address : Address
  signature : String
  proposals : List Proposal
  description : Option String

/-- An enumeration under its name. -/
structure Definition where
  name : String
  signature : String
  values : List Value
  description : Option String

/-- The enumerations of a specification: by name, by the address of each occurrence and by signature. -/
structure Registry where
  definitions : Dictionary String Definition := []
  assignments : Dictionary Address String := []
  bySignature : Dictionary String String := []

namespace Registry

/-- The name of the enumeration at an address. -/
def nameAt (r : Registry) (address : Address) : Except Fault String :=
  match r.assignments.get? address with
  | some name => .ok name
  | none => .error (.uncollected address)

/-- The name of the enumeration with the given values, if it was collected. -/
def nameOf? (r : Registry) (values : List Value) : Except Fault (Option String) := do
  return r.bySignature.get? (← signature values)

end Registry

/-- The words that proposed names are guarded with. -/
def guardWord : String := "Enum"

/-- The names proposed for the enumeration of a parameter in a context, the best rank first. -/
def proposals (tables : Tables) (parameter context : String) : List Proposal :=
  let words := Naming.pascal parameter
  let wellKnown :=
    match tables.enumNames.get? parameter with
    | some name => if name = "" then [] else [(1, Naming.identifier name guardWord)]
    | none => []
  let shared :=
    if tables.sharedConcepts.contains words then [(2, Naming.identifier words guardWord)] else []
  wellKnown ++ shared ++ [(3, Naming.identifier (context ++ words) guardWord)]

/-- The text without the first of the given beginnings that it has, in any case. -/
def dropVerb (verbs : List String) (name : String) : String :=
  let small := lower name.toList
  match verbs.find? fun verb => verb.toList.isPrefixOf small with
  | some verb => .ofList (name.toList.drop verb.length)
  | none => name

/-- The context of an endpoint's parameters: its primary tag, else its name without the verb. -/
def contextOf (tables : Tables) (endpoint : Endpoint) : String :=
  match Naming.nonEmpty? endpoint.primaryTag? with
  | some tag => Naming.pascal tag
  | none => Naming.pascal (dropVerb tables.verbs endpoint.name)

/-- The occurrence of an enumeration. -/
def occurrence (tables : Tables) (address : Address) (values : List Value) (name : Value)
    (context : String) (description : Option String) : Except Fault Occurrence := do
  let signature ← signature values
  return {
    address, signature
    proposals := proposals tables (← name.asText) context
    description := description.filter (· != "") }

/-- The properties of a component schema, with those of its composed members laid over them. -/
def componentProperties (schema : Value) : Except Fault Entries := do
  let own ← (Value.orElse (schema.field? "properties") .emptyMap).contribution
  let members ← (Value.orElse (schema.field? "allOf") (.list [])).elements
  (members.filter Value.isMapping).foldlM
    (fun properties member => do
      let more ← (Value.orElse (member.field? "properties") .emptyMap).contribution
      return Dictionary.overlay properties more)
    (Dictionary.ofEntries own)

/-- The enumerations among the properties of a component schema. -/
def schemaOccurrences (tables : Tables) (entry : Value × Value) : Except Fault (List Occurrence) := do
  let properties ← componentProperties entry.2
  let name ← entry.1.asText
  let found ← properties.mapM fun (property, schema) => do
    match ← enumValues? schema with
    | some values =>
      let address : Address := ⟨schemaPointer ++ name, "properties", [property]⟩
      let description := cleanDescription? (schema.field? "description")
      return [← occurrence tables address values property (Naming.pascal name) description]
    | none => return []
  return found.flatten

/-- The enumerations among the parameters of an endpoint. -/
def endpointOccurrences (tables : Tables) (endpoint : Endpoint) : Except Fault (List Occurrence) := do
  let context := contextOf tables endpoint
  let listed := endpoint.allParameters.filter fun (_, p) => p.hasEnum
  listed.mapM fun (address, p) =>
    occurrence tables address (p.enumValues.getD []) p.name context p.description

/-- All occurrences of enumerations in a specification. -/
def occurrences (tables : Tables) (specification : Specification) :
    Except Fault (List Occurrence) := do
  let components ← specification.components.schemas.mapM (schemaOccurrences tables)
  let endpoints ← specification.endpoints.mapM (endpointOccurrences tables)
  return components.flatten ++ endpoints.flatten

/-- The signatures that occur, each with its distinct proposals from best to worst. -/
def rankedProposals (found : List Occurrence) : List (String × List Proposal) :=
  (found.map (·.signature)).eraseDups.map fun signature =>
    let all := (found.filter (·.signature == signature)).flatMap (·.proposals)
    (signature, all.eraseDups.mergeSort Proposal.le)

/-- The best proposal of a ranked list. -/
def best (ranked : List Proposal) : Proposal := ranked.headD (0, "")

/-- The order in which enumerations choose: by their best proposals, then by signature. -/
def chooseBefore (a b : String × List Proposal) : Bool :=
  if best a.2 == best b.2 then decide (a.1 ≤ b.1) else (best a.2).le (best b.2)

/-- The name for an enumeration with ranked proposals: the best one that is free, else the best one
with a number. -/
def chooseName (taken : List String) (ranked : List Proposal) : String :=
  match ranked.find? fun p => !taken.contains p.2 with
  | some p => p.2
  | none => Naming.fresh taken (Naming.numbered (best ranked).2 "") 2

/-- Let the next enumeration choose its name. -/
def assign (names : Dictionary String String) (next : String × List Proposal) :
    Journal (Dictionary String String) := do
  let (signature, ranked) := next
  let chosen := chooseName names.values ranked
  let wanted := (best ranked).2
  if chosen != wanted then
    Journal.warn .enumerations
      s!"Enum name {quoted wanted} already used by other values; {signature} named {quoted chosen}"
  return names.put signature chosen

/-- The names of all signatures that occur. -/
def assignNames (found : List Occurrence) : Journal (Dictionary String String) :=
  ((rankedProposals found).mergeSort chooseBefore).foldlM assign []

/-- The least of the descriptions of an enumeration. -/
def describe (found : List Occurrence) (signature : String) : Option String :=
  (((found.filter (·.signature == signature)).filterMap (·.description)).mergeSort (· ≤ ·)).head?

/-- The definition of an enumeration. -/
def definition (found : List Occurrence) (signature name : String) : Definition where
  name := name
  signature := signature
  values := signedValues signature
  description := describe found signature

/-- The registry of the enumerations of a specification. -/
def collect (tables : Tables) (specification : Specification) : Journal Registry := do
  let found ← occurrences tables specification
  let bySignature ← assignNames found
  -- Names are distinct, so the order of the definitions is that of their names.
  let byName := bySignature.mergeSort fun a b => decide (a.2 ≤ b.2)
  let definitions := Dictionary.ofEntries <|
    byName.map fun (signature, name) => (name, definition found signature name)
  let assignments := Dictionary.ofEntries <|
    found.map fun o => (o.address, (bySignature.get? o.signature).getD "")
  Journal.info .enumerations
    s!"Collected {definitions.length} enums from {assignments.length} parameters"
  return { definitions, assignments, bySignature }

end ClientGen.Enumeration
