import ClientGen.Proofs.Enumeration.Assignment
import ClientGen.Proofs.Enumeration.Signatures
import ClientGen.Proofs.Unit.Faults

/-!
# The registry is canonical

The generator never stores the name of an enumeration with a parameter; it looks
the name up by address, and by signature where it has values only. This module
shows that both tables answer alike: every parameter that lists its values has an
assignment, it is the name of the signature of these very values, and different
signatures have different names. So the definitions, which are filed under their
names, lose no enumeration, and writing the units asks for none that is missing.

Main results:

* `collect_canonical` — the registry of a document's specification is `Canonical`.
-/

namespace ClientGen.Enumeration

open ClientGen.Api ClientGen.Document

-- ---------------------------------------------------------------------------
-- Canonical registries
-- ---------------------------------------------------------------------------

/-- The parameter at the address lists the values. -/
def Lists (s : Specification) (address : Address) (values : List Value) : Prop :=
  ∃ e ∈ s.endpoints, ∃ p, (address, p) ∈ e.allParameters ∧ p.hasEnum = true ∧
    p.enumValues.getD [] = values

/-- What the registry of a specification promises to those who look names up. -/
structure Canonical (tables : Tables) (s : Specification) (r : Registry) : Prop where
  /-- no two parameters have the same address, so an address stands for one list of values -/
  addresses : (s.endpoints.flatMap Endpoint.allParameters).Pairwise fun x y => x.1 ≠ y.1
  /-- each parameter that lists values is assigned the name of the signature of these values -/
  assigned : ∀ address values, Lists s address values → ∃ sig name,
    signature values = .ok sig ∧ r.bySignature.get? sig = some name ∧ r.nameAt address = .ok name
  /-- parameters with the same values have the same name -/
  same : ∀ a vs b ws, Lists s a vs → Lists s b ws → SameTexts vs ws → r.nameAt a = r.nameAt b
  /-- parameters with different signatures have different names -/
  apart : ∀ a vs b ws, Lists s a vs → Lists s b ws → signature vs ≠ signature ws →
    r.nameAt a ≠ r.nameAt b
  /-- the signatures with a name are those that occur in the specification -/
  collected : ∃ found, occurrences tables s = .ok found ∧
    ∀ sig, (∃ name, r.bySignature.get? sig = some name) ↔ ∃ o ∈ found, o.signature = sig
  /-- no two signatures have the same name -/
  injective : ∀ sig sig' name, r.bySignature.get? sig = some name →
    r.bySignature.get? sig' = some name → sig = sig'
  /-- under the name of a signature stands its definition, and nothing else is defined -/
  defined : ∀ sig name, r.bySignature.get? sig = some name ↔
    ∃ d, r.definitions.get? name = some d ∧ d.name = name ∧ d.signature = sig
  /-- there is one definition for each signature with a name -/
  definitions : (r.definitions.values.map Definition.signature).Perm r.bySignature.keys
  /-- writing the units asks for no enumeration that was not collected -/
  reachable : ∀ settings names address,
    (Unit.unitsOf settings s r names).outcome ≠ .error (.uncollected address)

variable {tables : Tables} {s : Specification} {r : Registry}

/-- The table of assignments has an entry for each occurrence: the name of its signature. -/
theorem nameAt_of_mem {found : List Occurrence} (hNames : Names found r.bySignature)
    (hUnique : found.Pairwise fun o o' => o.address ≠ o'.address)
    (hText : ∀ o ∈ found, o.address.Textual)
    (hAssignments : r.assignments = Dictionary.ofEntries (assignmentEntries found r.bySignature))
    {o : Occurrence} (ho : o ∈ found) :
    ∃ name, r.bySignature.get? o.signature = some name ∧ r.nameAt o.address = .ok name := by
  obtain ⟨name, hName⟩ := hNames.exists_get?_iff.mpr ⟨o, ho, rfl⟩
  refine ⟨name, hName, ?_⟩
  have hDistinct := assignmentEntries_distinct hUnique hText r.bySignature
  have hEntry : (o.address, name) ∈ assignmentEntries found r.bySignature := by
    refine List.mem_map.mpr ⟨o, ho, ?_⟩
    rw [hName, Option.getD_some]
  have hGet := Dictionary.get?_of_mem hDistinct hEntry ((Address.beq_iff (Or.inl (hText o ho))).mpr rfl)
  rw [Registry.nameAt, hAssignments, Dictionary.ofEntries_eq_self hDistinct, hGet]

theorem mem_definitionEntries {found : List Occurrence} {names : Dictionary String String}
    (hNames : Names found names) {entry : String × Definition}
    (h : entry ∈ definitionEntries found names) :
    entry.2.name = entry.1 ∧ names.get? entry.2.signature = some entry.1 := by
  obtain ⟨e, he, rfl⟩ := List.mem_map.mp h
  refine ⟨rfl, ?_⟩
  rw [Dictionary.get?_eq_some_iff hNames.distinct]
  exact List.mem_mergeSort.mp he

/-- Each signature with a name has its definition under this name. -/
theorem Names.get?_eq_some_iff_defined {found : List Occurrence} {names : Dictionary String String}
    (hNames : Names found names) {sig name : String} :
    names.get? sig = some name ↔ ∃ d, Dictionary.get? (definitionEntries found names) name = some d ∧
      d.name = name ∧ d.signature = sig := by
  have hDistinct := hNames.definitionEntries_distinct
  rw [Dictionary.get?_eq_some_iff hNames.distinct]
  constructor
  · intro hMem
    refine ⟨definition found sig name, ?_, rfl, rfl⟩
    rw [Dictionary.get?_eq_some_iff hDistinct]
    exact List.mem_map.mpr ⟨(sig, name), List.mem_mergeSort.mpr hMem, rfl⟩
  · rintro ⟨d, hGet, -, rfl⟩
    rw [Dictionary.get?_eq_some_iff hDistinct] at hGet
    obtain ⟨-, hSignature⟩ := mem_definitionEntries hNames hGet
    exact (Dictionary.get?_eq_some_iff hNames.distinct).mp hSignature

/-- In a specification in normal form whose parameters have texts as names the
registry is canonical. -/
theorem canonical_of_normal (hNormal : s.Normal) (hText : ∀ e ∈ s.endpoints, e.Textual)
    (hCollect : (collect tables s).outcome = .ok r) : Canonical tables s r := by
  obtain ⟨found, hFound, hRun, hDefinitions, hAssignments⟩ := exists_of_collect_ok hCollect
  have hNames := names_of_assignNames_ok hRun
  obtain ⟨hUnique, hTextual⟩ := occurrences_unique hNormal hText hFound
  have hAssigned : ∀ address values, Lists s address values → ∃ sig name,
      signature values = .ok sig ∧ r.bySignature.get? sig = some name ∧
        r.nameAt address = .ok name := by
    rintro address values ⟨e, he, p, hPlace, hEnum, rfl⟩
    obtain ⟨o, ho, rfl, hSignature⟩ := exists_occurrence hFound he hPlace hEnum
    obtain ⟨name, hName, hAt⟩ := nameAt_of_mem hNames hUnique hTextual hAssignments ho
    exact ⟨o.signature, name, hSignature, hName, hAt⟩
  have hEntries := hNames.definitions_eq hDefinitions
  refine ⟨hNormal.addresses_unique hText, hAssigned, ?_, ?_, ⟨found, hFound, ?_⟩, ?_, ?_, ?_, ?_⟩
  · -- the same texts make the same signature, and this has one name
    intro a vs b ws hvs hws hSame
    obtain ⟨sig, name, hSig, hName, hAt⟩ := hAssigned a vs hvs
    obtain ⟨sig', name', hSig', hName', hAt'⟩ := hAssigned b ws hws
    rw [signature_eq_of_same_texts hSame hSig hSig', hName'] at hName
    rw [hAt, hAt', Option.some.inj hName]
  · -- one name would make the signatures equal
    intro a vs b ws hvs hws hDiffer hSame
    obtain ⟨sig, name, hSig, hName, hAt⟩ := hAssigned a vs hvs
    obtain ⟨sig', name', hSig', hName', hAt'⟩ := hAssigned b ws hws
    rw [hAt, hAt'] at hSame
    cases hSame
    rw [hSig, hSig', hNames.inj hName hName'] at hDiffer
    exact hDiffer rfl
  · intro sig
    exact hNames.exists_get?_iff
  · intro sig sig' name
    exact hNames.inj
  · intro sig name
    rw [hEntries]
    exact hNames.get?_eq_some_iff_defined
  · rw [hEntries]
    show ((List.map Prod.snd (definitionEntries found r.bySignature)).map _).Perm _
    rw [definitionEntries, List.map_map, List.map_map]
    exact (List.mergeSort_perm r.bySignature _).map Prod.fst
  · intro settings names address hFault
    -- the requests ask for parameters of a slot only, and these have assignments
    have hServes : ∀ e ∈ s.endpoints, Unit.Serves r e := by
      intro e he slot p hp hEnum
      have hPlace := mem_allParameters hp (mem_walk_self _ p)
      obtain ⟨sig, name, -, -, hAt⟩ := hAssigned _ _ ⟨e, he, p, hPlace, hEnum, rfl⟩
      exact ⟨name, hAt⟩
    obtain ⟨m, hMisuse⟩ := Unit.unitsOf_onlyMisuse settings names hServes _ hFault
    cases hMisuse

/--
**The registry is canonical.** For a document whose mappings have no key twice and
whose parameters have texts as names: whenever its enumerations are collected, the
side tables of the registry serve every parameter, agree with each other and lose
nothing.
-/
theorem collect_canonical {settings : Settings} {tables : Tables} {document : Value}
    {s : Specification} {r : Registry} (hDocument : document.wellKeyed = true)
    (hSpecification : (Specification.ofDocument settings document).outcome = .ok s)
    (hText : ∀ e ∈ s.endpoints, e.Textual) (hCollect : (collect tables s).outcome = .ok r) :
    Canonical tables s r :=
  canonical_of_normal (ofDocument_normal hDocument hSpecification) hText hCollect

-- ---------------------------------------------------------------------------
-- A document with three lists of values
-- ---------------------------------------------------------------------------

open ClientGen.Document.Value ClientGen.Schema

/-- The schema of a text that is one of the given ones. -/
def choiceSchema (texts : List String) : Value :=
  .map [(.str "type", .str "string"), (.str "enum", .list (texts.map .str))]

/-- The declaration of a parameter with such a schema. -/
def choiceDeclaration (name place : String) (texts : List String) : Value :=
  .map [(.str "name", .str name), (.str "in", .str place), (.str "schema", choiceSchema texts)]

/-- The parameter that it declares. -/
def choiceParameter (name : String) (texts : List String) : Parameter where
  kind := .text
  nullable := true
  name := .str name
  enumValues := literals? (texts.map .str)

theorem declaredParameter_choice (name place : String) (texts : List String) :
    (declaredParameter (.str name) (choiceDeclaration name place texts)).outcome =
      .ok (choiceParameter name texts) := by
  have hSchema : (choiceDeclaration name place texts).field? "schema" = some (choiceSchema texts) := by
    simp [choiceDeclaration, field?, Dictionary.get?]
  have hTruthy : (choiceSchema texts).isTruthy = true := rfl
  have hKind : kindOf (choiceSchema texts) = pure .text := by
    rw [kindOf]
    simp [choiceSchema, isMapping, isTruthy, isOpen, openRef?, refKey, field?, Dictionary.get?,
      Kind.ofType, Kind.ofName]
  have hEnum : enumValues? (choiceSchema texts) = .ok (literals? (texts.map .str)) := by
    rw [enumValues?]
    simp [choiceSchema, field?, Dictionary.get?]
  unfold declaredParameter
  simp only [hSchema, orElse, hTruthy, if_true, hKind, hEnum]
  simp [choiceDeclaration, field?, Dictionary.get?, cleanDescription?, choiceParameter]

/-- Two of the parameters have the same values, and two the same name. -/
def choices : List Value := [
  choiceDeclaration "mode" "query" ["on", "off"],
  choiceDeclaration "state" "query" ["off", "on", "off"],
  choiceDeclaration "mode" "header" ["x"]]

theorem declaredParameters_choices (label : String) :
    (declaredParameters (.list []) (.list choices) label).outcome = .ok {
      query := [choiceParameter "mode" ["on", "off"], choiceParameter "state" ["off", "on", "off"]]
      header := [choiceParameter "mode" ["x"]] } := by
  have hFields : ∀ name place texts,
      (choiceDeclaration name place texts).field? "name" = some (.str name) ∧
        (choiceDeclaration name place texts).field? "in" = some (.str place) := by
    intro name place texts
    simp [choiceDeclaration, field?, Dictionary.get?]
  simp [declaredParameters, elements, choices, Declared.declare, hFields, canBeKey, declarable, isStr,
    Slot.name, Parameter.named, Declared.get, declaredParameter_choice, Journal.outcome_ite, List.find?,
    Declared.append, choiceParameter]

/-- The operation that has them. -/
def choiceOperation : Value :=
  .map [(.str "operationId", .str "listUsers"), (.str "parameters", .list choices)]

theorem exists_ofOperation_choice :
    ∃ e, (Endpoint.ofOperation {} "get" (.str "/users") choiceOperation (.list [])).outcome = .ok e ∧
      e.key = "GET /users" ∧ e.pathParameters = [] ∧ e.queryParameters =
        [choiceParameter "mode" ["on", "off"], choiceParameter "state" ["off", "on", "off"]] ∧
      e.bodyParameters = [] ∧ e.headerParameters = [choiceParameter "mode" ["x"]] := by
  have hMethod : Method.ofName? "get" = some .get := by decide +kernel
  have hTags : Endpoint.tagsOf choiceOperation = .ok [] := by
    simp [Endpoint.tagsOf, choiceOperation, member, entries, Dictionary.get?, orElse, elements]
  have hName : Endpoint.givenName choiceOperation = "listUsers" := by decide +kernel
  have hOwn : ∀ label, Endpoint.parameterList (choiceOperation.field? "parameters") label =
      .ok (.list choices) := by
    intro label
    simp [choiceOperation, field?, Dictionary.get?, Endpoint.parameterList]
  have hPlaceholders : Path.placeholders ['/', 'u', 's', 'e', 'r', 's'] = [] := by decide +kernel
  have hBody : choiceOperation.field? "requestBody" = none := by
    simp [choiceOperation, field?, Dictionary.get?]
  have hResponse : Response.successSchema? choiceOperation = .ok none := by
    simp [Response.successSchema?, choiceOperation, member, entries, Dictionary.get?, orElse, isTruthy,
      emptyMap]
    rfl
  have hKey : Method.get.name ++ " " ++ "/users" = "GET /users" := rfl
  unfold Endpoint.ofOperation
  simp [hMethod, hTags, hName, hOwn, declaredParameters_choices, hPlaceholders, hBody, hResponse, asText,
    requestBody, isMapping, canBeKey, Endpoint.key, hKey, -List.all_eq_true]

/-- The document with this operation only. -/
def choiceDocument : Value :=
  .map [(.str "info", .map []),
    (.str "paths", .map [(.str "/users", .map [(.str "get", choiceOperation)])])]

theorem exists_ofDocument_choice :
    ∃ s e, (Specification.ofDocument {} choiceDocument).outcome = .ok s ∧ s.endpoints = [e] ∧
      s.components.schemas = [] ∧
      (Endpoint.ofOperation {} "get" (.str "/users") choiceOperation (.list [])).outcome = .ok e := by
  obtain ⟨e, hOperation, -⟩ := exists_ofOperation_choice
  have hMapping : choiceOperation.isMapping = true := rfl
  have hItem : (Value.map [(.str "get", choiceOperation)]).isMapping = true := rfl
  have hOperations : (Endpoint.operationMethods.filterMap fun method =>
      (field? (.map [(.str "get", choiceOperation)]) method).map fun operation => (method, operation)) =
        [("get", choiceOperation)] := by
    simp [Endpoint.operationMethods, field?, Dictionary.get?]
  have hPathItem : (Endpoint.ofPathItem {} (.str "/users")
      (.map [(.str "get", choiceOperation)])).outcome = .ok [e] := by
    unfold Endpoint.ofPathItem
    simp only [hOperations]
    simp [field?, Dictionary.get?, Endpoint.parameterList, hOperation, hMapping, hItem]
  have hEndpoints : (Specification.endpointsOf {} choiceDocument).outcome = .ok [e] := by
    simp [Specification.endpointsOf, choiceDocument, member, entries, Dictionary.get?, orElse, isTruthy,
      sortOn?, hPathItem]
  unfold Specification.ofDocument
  rw [choiceDocument] at *
  simp [hEndpoints, Journal.info, member, entries, Dictionary.get?, orElse, isTruthy, field?,
    BaseUrl.ofServers, securityRequirements, Components.ofValue, isMapping, emptyMap, hOperation]

/-- Different choices have different signatures. -/
theorem signature_choices_ne : signature [.str "x"] ≠ signature [.str "on", .str "off"] := by
  have hSorted : (["\"on\"", "\"off\""] : List String).eraseDups.mergeSort (· ≤ ·) =
      ["\"off\"", "\"on\""] := by
    have hSame : ∀ t, t ∈ ["\"on\"", "\"off\""] ↔ t ∈ ["\"off\"", "\"on\""] := by simp [or_comm]
    have hOnce : ["\"off\"", "\"on\""].eraseDups = ["\"off\"", "\"on\""] := by decide +kernel
    rw [eraseDups_mergeSort_eq string_linear (fun _ _ => trivial) hSame, hOnce]
    exact List.mergeSort_of_pairwise (by decide +kernel)
  have hSingle : (["\"x\""] : List String).eraseDups.mergeSort (· ≤ ·) = ["\"x\""] :=
    List.mergeSort_singleton _
  intro h
  have hTexts : "[" ++ ",".intercalate ((["\"x\""] : List String).eraseDups.mergeSort (· ≤ ·)) ++ "]" =
      "[" ++ ",".intercalate ((["\"on\"", "\"off\""] : List String).eraseDups.mergeSort (· ≤ ·)) ++ "]" :=
    Except.ok.inj h
  rw [hSorted, hSingle] at hTexts
  exact absurd hTexts (by decide)

/-- The places of the three parameters. -/
def choicePlaces : List (Address × Parameter) := [
  (⟨"GET /users", "query", [.str "mode"]⟩, choiceParameter "mode" ["on", "off"]),
  (⟨"GET /users", "query", [.str "state"]⟩, choiceParameter "state" ["off", "on", "off"]),
  (⟨"GET /users", "header", [.str "mode"]⟩, choiceParameter "mode" ["x"])]

/-- The document has one endpoint, with the three parameters. -/
theorem exists_ofDocument_places :
    ∃ s e, (Specification.ofDocument {} choiceDocument).outcome = .ok s ∧ s.endpoints = [e] ∧
      s.components.schemas = [] ∧ e.allParameters = choicePlaces := by
  obtain ⟨s, e, hSpecification, hEndpoints, hSchemas, hOperation⟩ := exists_ofDocument_choice
  obtain ⟨e', hOperation', hKey, hPath, hQuery, hBody, hHeader⟩ := exists_ofOperation_choice
  obtain rfl := Except.ok.inj (hOperation.symm.trans hOperation')
  have hWalk : ∀ a name texts,
      (choiceParameter name texts).walk a = [(a, choiceParameter name texts)] := by
    intro a name texts
    rw [walk_eq_cons]
    rfl
  have hName : ∀ name texts, (choiceParameter name texts).name = .str name := fun _ _ => rfl
  refine ⟨s, e, hSpecification, hEndpoints, hSchemas, ?_⟩
  simp [Endpoint.allParameters, Slot.all, Endpoint.parameters, hKey, hPath, hQuery, hBody, hHeader,
    hWalk, hName, Slot.name, choicePlaces]

/-- What the three parameters list can be signed, so it is collected. -/
theorem exists_collect_choice {s : Specification} {e : Endpoint} (hEndpoints : s.endpoints = [e])
    (hSchemas : s.components.schemas = []) (hAll : e.allParameters = choicePlaces) :
    ∃ r, (collect {} s).outcome = .ok r := by
  have hOccurrence : ∀ place ∈ e.allParameters.filter fun place => place.2.hasEnum, ∃ o,
      occurrence {} place.1 (place.2.enumValues.getD []) place.2.name (contextOf {} e)
        place.2.description = .ok o := by
    intro place hPlace
    have hMem := List.mem_of_mem_filter hPlace
    simp only [hAll, choicePlaces, List.mem_cons, List.not_mem_nil, or_false] at hMem
    have hSigned : ∃ sig, signature (place.2.enumValues.getD []) = .ok sig := by
      refine exists_of_toOption_isSome ?_
      rcases hMem with rfl | rfl | rfl <;> decide +kernel
    obtain ⟨sig, hSig⟩ := hSigned
    have hName : ∃ name, place.2.name = .str name := by
      rcases hMem with rfl | rfl | rfl <;> exact ⟨_, rfl⟩
    obtain ⟨name, hName⟩ := hName
    unfold occurrence
    rw [hSig, ok_bind, hName]
    exact ⟨_, rfl⟩
  obtain ⟨found, hFound⟩ := exists_mapM_ok hOccurrence
  have hOccurrences : occurrences {} s = .ok found := by
    have hEndpoint : endpointOccurrences {} e = .ok found := hFound
    simp [occurrences, hSchemas, hEndpoints, hEndpoint]
  exact exists_collect_ok hOccurrences

/-- Of the three parameters those with the same values share a name, and those with
the same name do not. -/
theorem collect_choiceDocument :
    ∃ s r name, (Specification.ofDocument {} choiceDocument).outcome = .ok s ∧
      (collect {} s).outcome = .ok r ∧ Canonical {} s r ∧
      r.nameAt ⟨"GET /users", "query", [.str "mode"]⟩ = .ok name ∧
      r.nameAt ⟨"GET /users", "query", [.str "state"]⟩ = .ok name ∧
      r.nameAt ⟨"GET /users", "header", [.str "mode"]⟩ ≠ .ok name := by
  obtain ⟨s, e, hSpecification, hEndpoints, hSchemas, hAll⟩ := exists_ofDocument_places
  obtain ⟨r, hCollect⟩ := exists_collect_choice hEndpoints hSchemas hAll
  have hText : ∀ e ∈ s.endpoints, e.Textual := by
    intro f hf place hPlace
    rw [hEndpoints, List.mem_singleton] at hf
    simp only [hf, hAll, choicePlaces, List.mem_cons, List.not_mem_nil, or_false] at hPlace
    rcases hPlace with rfl | rfl | rfl <;> rfl
  have hKeyed : choiceDocument.wellKeyed = true := by decide +kernel
  have hCanonical := collect_canonical hKeyed hSpecification hText hCollect
  have hLists : ∀ place ∈ choicePlaces, place.2.hasEnum = true →
      Lists s place.1 (place.2.enumValues.getD []) := by
    intro place hMem hEnum
    exact ⟨e, by rw [hEndpoints]; exact List.mem_cons_self, place.2, hAll ▸ hMem, hEnum, rfl⟩
  simp only [choicePlaces, List.forall_mem_cons] at hLists
  obtain ⟨hMode, hState, hOther, -⟩ := hLists
  replace hMode := hMode rfl
  replace hState := hState rfl
  replace hOther := hOther rfl
  obtain ⟨-, name, -, -, hName⟩ := hCanonical.assigned _ _ hMode
  refine ⟨s, r, name, hSpecification, hCollect, hCanonical, hName, ?_, ?_⟩
  · rw [← hName]
    refine hCanonical.same _ _ _ _ hState hMode (sameTexts_of_mem_iff ?_)
    intro v
    show v ∈ [Value.str "off", .str "on", .str "off"] ↔ v ∈ [Value.str "on", .str "off"]
    simp only [List.mem_cons, List.not_mem_nil, or_false]
    grind
  · rw [← hName]
    exact hCanonical.apart _ _ _ _ hOther hMode signature_choices_ne

end ClientGen.Enumeration
