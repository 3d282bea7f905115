import ClientGen.Proofs.Unit.BoundNames
import Mathlib

/-!
# Shadowed names

The names that the single units bind are put together for a whole client: in each of its
units, whatever the document, only the clashes that no alias covers are left. One of them
is reached by a well-known name. A parameter `method` has an enumeration `Method`, which is
what the support code calls the methods of HTTP.

Main results:

* `generate_namesApart` — the units of a client under the standard tables.
* `method_bound_twice` — an enumeration takes the place of an import of support code.
-/

namespace ClientGen.Unit

open ClientGen.Api ClientGen.Document ClientGen.Enumeration ClientGen.Naming

-- ---------------------------------------------------------------------------
-- All units
-- ---------------------------------------------------------------------------

/-- Which units of a client bind a name twice: those with names from the document that are not apart
from the other names. The imports that bind the names are lines of the unit, before that of the class. -/
structure NamesApart (settings : Settings) (registry : Registry)
    (members : List (Endpoint × ResolvedName)) (dtos : Dictionary String Value) : Prop where
  requests : ∀ m ∈ members, ∀ r, Request.ofEndpoint settings m.1 m.2 registry = .ok r →
    ((requestImports r).map Import.text ++ ["class " ++ r.className ++ "(Request):"]).Sublist r.lines ∧
      ((boundNames (requestImports r) r.className).Nodup ↔
        RequestApart (Argument.enumNames r.arguments) (decodedClass? m.1) r.className)
  resources : ∀ resource ∈ resourcesOf members, ∀ r,
    Resource.ofMembers settings resource (ofResource members resource) registry = .ok r →
    ((resourceImports r).map Import.text ++ ["class " ++ r.className ++ "(BaseResource):"]).Sublist
        r.lines ∧
      ((boundNames (resourceImports r) r.className).Nodup ↔
        ResourceApart (Argument.enumNames (r.methods.flatMap (·.arguments)))
          (r.methods.map localRequest) r.className)
  classes : ∀ entry ∈ dtos, ∀ d, (Dto.ofSchema entry.1 registry entry.2).outcome = .ok d →
    ((dtoImports settings d).map Import.text ++ ["class " ++ d.name ++ ":"]).Sublist
        (d.lines settings) ∧
      ((boundNames (dtoImports settings d) d.name).Nodup ↔
        DtoApart (d.enums.map Imported.name) d.name)

/--
**Only uncovered clashes shadow a name.** For every document whose mappings have no key
twice, under the standard tables: whenever a client is generated, the units of its
requests, resources and data classes bind no name twice exactly if their enumerations,
decoded classes and own classes are apart, from each other as far as no alias covers
them and from the names of support code. The imports by which the names are bound are written
in the unit, before its class.
-/
theorem generate_namesApart {settings : Settings} {document : Value} {g : Generated}
    (hTables : settings.tables = {}) (hDocument : document.wellKeyed = true)
    (h : (generate settings document).outcome = .ok g) :
    ∃ members dtos, Closed settings g.specification g.registry g.names g.units members dtos ∧
      NamesApart settings g.registry members dtos := by
  obtain ⟨resolution, hSpecification, hRegistry, hResolution, hNames, hUnits⟩ := exists_of_generate_ok h
  rw [hTables] at hRegistry
  have hKeys := (ofDocument_normal hDocument hSpecification).keys
  have hFree := (resolve_tracks hKeys hResolution).collisionFree
  obtain ⟨members, dtos, hClosed⟩ := units_closed hRegistry hUnits
  have hEndpoints := hClosed.endpoints
  have hNamed := hNames ▸ hClosed.named
  refine ⟨members, dtos, hClosed, ?_, ?_, ?_⟩
  · intro m hm r hRequest
    exact ⟨requestImports_sublist r,
      requestNames_nodup_iff hRegistry (named_of_mem hFree hEndpoints hNamed hm).2 hRequest⟩
  · intro resource hResource r hUnit
    exact ⟨resourceImports_sublist r,
      resourceNames_nodup_iff hFree hEndpoints hNamed hRegistry hKeys hResource hUnit⟩
  · intro entry _ d hDto
    exact ⟨dtoImports_sublist settings d, dtoNames_nodup_iff settings hRegistry hDto⟩

-- ---------------------------------------------------------------------------
-- A parameter with the name of support code
-- ---------------------------------------------------------------------------

/-- A listing with a parameter `method`, whose values make up an enumeration. -/
def methodListing : Value :=
  .map [(.str "info", .map []), (.str "paths", .map [(.str "/logins", .map [(.str "get", .map [
    (.str "operationId", .str "listLogins"),
    (.str "parameters", .list [.map [(.str "name", .str "method"), (.str "in", .str "query"),
      (.str "schema", .map [(.str "type", .str "string"), (.str "enum", .list [.str "code"])])]])])])])]

/-- Its parameter. -/
def methodParameter : Parameter where
  kind := .text
  nullable := true
  name := .str "method"
  enumValues := some [.str "code"]

/-- Its endpoint. -/
def listLogins : Endpoint where
  name := "listLogins"
  method := .get
  path := "/logins"
  segments := ["logins"]
  collection := "Logins"
  queryParameters := [methodParameter]

/-- Its specification. -/
def methodSpecification : Specification where
  name := .null
  description := .null
  endpoints := [listLogins]

/-- The only enumeration in it. The table of well-known names has one for the parameter. -/
def methodOccurrence : Occurrence where
  address := ⟨"GET /logins", "query", [.str "method"]⟩
  signature := "[\"code\"]"
  proposals := [(1, "Method"), (3, "ListLoginsMethod")]
  description := none

/-- The enumeration under the well-known name. -/
def methodRegistry : Registry where
  definitions := [("Method", ⟨"Method", "[\"code\"]", [.str "code"], none⟩)]
  assignments := [(methodOccurrence.address, "Method")]
  bySignature := [("[\"code\"]", "Method")]

theorem ofDocument_methodListing :
    (Specification.ofDocument {} methodListing).outcome = .ok methodSpecification := by
  -- texts are unfolded by equations from all over the library, which is imported whole for that
  cbv

theorem occurrences_methodSpecification :
    occurrences {} methodSpecification = .ok [methodOccurrence] := by
  have hListed : listLogins.allParameters.filter (fun place => place.2.hasEnum) =
      [(methodOccurrence.address, methodParameter)] := by
    cbv
  have hSignature : signature [.str "code"] = .ok methodOccurrence.signature :=
    ok_of_toOption (by decide +kernel)
  have hProposals : proposals {} "method" (contextOf {} listLogins) = methodOccurrence.proposals := by
    decide +kernel
  have hOne : occurrence {} methodOccurrence.address [.str "code"] (.str "method")
      (contextOf {} listLogins) none = .ok methodOccurrence := by
    unfold occurrence
    rw [hSignature, ok_bind, Value.asText, ok_bind, hProposals]
    rfl
  have hEndpoint : endpointOccurrences {} listLogins = .ok [methodOccurrence] := by
    unfold endpointOccurrences
    dsimp only
    rw [hListed, List.mapM_cons]
    show (occurrence {} _ [.str "code"] (.str "method") (contextOf {} listLogins) none >>= _) = _
    rw [hOne]
    rfl
  unfold occurrences
  show (Except.ok [] >>= fun _ => [listLogins].mapM (endpointOccurrences {}) >>= _) = _
  rw [ok_bind, List.mapM_cons, hEndpoint]
  rfl

theorem collect_methodSpecification : (collect {} methodSpecification).outcome = .ok methodRegistry := by
  obtain ⟨registry, hRegistry⟩ := exists_collect_ok occurrences_methodSpecification
  obtain ⟨found, hFound, hRun, hDefinitions, hAssignments⟩ := exists_of_collect_ok hRegistry
  obtain rfl : [methodOccurrence] = found :=
    Except.ok.inj (occurrences_methodSpecification.symm.trans hFound)
  have hNames : registry.bySignature = [("[\"code\"]", "Method")] := by
    have hBest := assignNames_singleton (show methodOccurrence.proposals = _ from rfl) (by decide +kernel)
      (by decide +kernel)
    exact Except.ok.inj (hRun.symm.trans hBest)
  rw [hNames] at hDefinitions hAssignments
  rw [hRegistry]
  obtain ⟨definitions, assignments, bySignature⟩ := registry
  cases hNames
  have hDefined : definitions = methodRegistry.definitions := hDefinitions.trans (by cbv)
  have hAssigned : assignments = methodRegistry.assignments := hAssignments.trans (by cbv)
  rw [hDefined, hAssigned]
  rfl

/-- The passes over it once the enumeration has its name: the names that its request units bind. -/
def methodPasses : Except Fault (List (List String)) := do
  let resolution ← (resolve {} methodSpecification.endpoints).outcome
  let members ← namedEndpoints methodSpecification resolution.names
  let requests ← members.mapM fun m => Request.ofEndpoint {} m.1 m.2 methodRegistry
  let _ ← members.mapM fun m => requestUnit {} methodRegistry m.1 m.2
  let _ ← (members.foldl addMember []).mapM fun g => resourceUnit {} methodRegistry g.1 g.2
  let _ ← methodRegistry.definitions.values.mapM (enumUnit {})
  let dtos ← (dtosOf methodSpecification).outcome
  let _ ← dtos.mapM fun e => (dtoUnit {} methodRegistry e.1 e.2).outcome
  return requests.map fun r => boundNames (requestImports r) r.className

/-- A client is generated for it, and its request unit imports the methods of HTTP and then the
enumeration by one name. -/
theorem exists_generate_methodListing :
    ∃ g e resolved r, (generate {} methodListing).outcome = .ok g ∧ e ∈ g.specification.endpoints ∧
      g.names.get? e.key = some resolved ∧ Request.ofEndpoint {} e resolved g.registry = .ok r ∧
      boundNames (requestImports r) r.className =
        ["annotations", "Any", "Method", "Request", "Method", "ListLoginsRequest"] := by
  have hPasses : methodPasses =
      .ok [["annotations", "Any", "Method", "Request", "Method", "ListLoginsRequest"]] :=
    ok_of_toOption (by decide +kernel)
  obtain ⟨resolution, hResolution, h⟩ := exists_of_bind_ok hPasses
  obtain ⟨members, hMembers, h⟩ := exists_of_bind_ok h
  obtain ⟨parts, hParts, h⟩ := exists_of_bind_ok h
  obtain ⟨requests, hRequests, h⟩ := exists_of_bind_ok h
  obtain ⟨resources, hResources, h⟩ := exists_of_bind_ok h
  obtain ⟨enums, hEnums, h⟩ := exists_of_bind_ok h
  obtain ⟨dtos, hDtos, h⟩ := exists_of_bind_ok h
  obtain ⟨classes, hClasses, h⟩ := exists_of_bind_ok h
  obtain ⟨r, hr, hNames⟩ := List.mem_map.mp (Except.ok.inj h ▸ List.mem_singleton_self _)
  obtain ⟨m, hm, hRequest⟩ := exists_of_mem_mapM hParts r hr
  obtain ⟨he, hName⟩ := namedEndpoints_mem hMembers m hm
  obtain ⟨g, hRun, hSpecification, hRegistry, hResolved⟩ := exists_generate_ok ofDocument_methodListing
    collect_methodSpecification hResolution hMembers hRequests hResources hEnums hDtos hClasses
  exact ⟨g, m.1, m.2, r, hRun, hSpecification ▸ he, hResolved ▸ hName, hRegistry ▸ hRequest, hNames⟩

/-- The request unit binds `Method` twice: from then on it is the enumeration that the class takes its
method from. -/
theorem method_bound_twice :
    ∃ g e resolved r, (generate {} methodListing).outcome = .ok g ∧ e ∈ g.specification.endpoints ∧
      g.names.get? e.key = some resolved ∧ Request.ofEndpoint {} e resolved g.registry = .ok r ∧
      ¬ (boundNames (requestImports r) r.className).Nodup := by
  obtain ⟨g, e, resolved, r, hRun, he, hName, hRequest, hNames⟩ := exists_generate_methodListing
  refine ⟨g, e, resolved, r, hRun, he, hName, hRequest, ?_⟩
  rw [hNames]
  decide

/-- Which of its units bind a name twice is settled by what is apart in them. -/
theorem generate_methodListing :
    ∃ g members dtos, (generate {} methodListing).outcome = .ok g ∧
      Closed {} g.specification g.registry g.names g.units members dtos ∧
      NamesApart {} g.registry members dtos := by
  obtain ⟨g, _, _, _, hRun, -⟩ := exists_generate_methodListing
  obtain ⟨members, dtos, hClosed, hApart⟩ := generate_namesApart rfl (by decide +kernel) hRun
  exact ⟨g, members, dtos, hRun, hClosed, hApart⟩

end ClientGen.Unit
