import ClientGen.Proofs.Unit.Complete
import ClientGen.Proofs.Unit.Fields

/-!
# No import is left dangling

The units of a client import each other: requests, resources and data classes import
enumerations, requests import the data class that decodes their response, and resources
need the requests they send. Importers take these names from four places — the registry
by address, the registry by values, the classified response and the resolved names — and
the units are written by loops over other collections. This module shows that each name
an importer takes lies in what is written.

Main results:

* `defines_of_mem_enumNames` / `defines_of_mem_enums` — enumerations of arguments and
  of fields are defined.
* `dtosOf_implied` — the class of a response is among the data classes, whether or
  not a component describes it.
* `units_closed` / `generate_closed` — in the units of a client all imports lead to
  units.

None of it needs the folders to be different or the document to be well keyed.
-/

namespace ClientGen.Unit

open ClientGen.Api ClientGen.Document ClientGen.Enumeration ClientGen.Naming

-- ---------------------------------------------------------------------------
-- Enumerations
-- ---------------------------------------------------------------------------

theorem mem_enumNames {arguments : List Argument} {name : String} :
    name ∈ Argument.enumNames arguments ↔ ∃ a ∈ arguments, a.enum? = some name := by
  rw [Argument.enumNames, List.mem_mergeSort, List.mem_eraseDups, List.mem_filterMap]

/-- An argument has the enumeration that the registry names at the address of its parameter. -/
theorem exists_nameAt_of_enum? {e : Endpoint} {resolved : ResolvedName} {registry : Registry}
    {arguments : List Argument} (h : Argument.ofEndpoint e resolved registry = .ok arguments)
    {a : Argument} (ha : a ∈ arguments) {name : String} (hName : a.enum? = some name) :
    ∃ address, registry.nameAt address = .ok name := by
  obtain ⟨made, hMade, h⟩ := exists_of_bind_ok h
  cases h
  obtain ⟨_, hMem, rfl⟩ := List.mem_filterMap.mp ha
  obtain ⟨⟨slot, p⟩, -, hStep⟩ := exists_of_mem_mapM hMade _ hMem
  simp only [Argument.ofParameter?] at hStep
  split at hStep
  · split at hStep
    · cases hStep
    · split at hStep
      · obtain ⟨found, hFound, hStep⟩ := exists_of_bind_ok hStep
        cases hStep
        cases hName
        exact ⟨_, hFound⟩
      · cases hStep
        cases hName
  · cases hStep

section Registered

variable {tables : Tables} {s : Specification} {registry : Registry}

/-- Enumerations of arguments are defined. -/
theorem defines_of_mem_enumNames (hRegistry : (collect tables s).outcome = .ok registry)
    {e : Endpoint} {resolved : ResolvedName} {arguments : List Argument}
    (h : Argument.ofEndpoint e resolved registry = .ok arguments) {name : String}
    (hName : name ∈ Argument.enumNames arguments) : registry.Defines name := by
  obtain ⟨a, ha, hEnum⟩ := mem_enumNames.mp hName
  obtain ⟨address, hAt⟩ := exists_nameAt_of_enum? h ha hEnum
  exact defines_of_nameAt hRegistry hAt

theorem defines_of_enumOf? (hRegistry : (collect tables s).outcome = .ok registry) {schema : Value}
    {name : String} (h : Dto.enumOf? registry schema = .ok (some name)) : registry.Defines name := by
  obtain ⟨values?, -, h⟩ := exists_of_bind_ok h
  split at h
  · split at h
    · obtain ⟨found, hFound, h⟩ := exists_of_bind_ok h
      have hSome := Except.ok.inj h
      -- only the empty name is dropped
      cases found with
      | none => cases hSome
      | some found =>
        simp only [nonEmpty?, Option.filter_eq_some_iff] at hSome
        cases hSome.1
        exact defines_of_nameOf? hRegistry hFound
    · cases h
  · cases h

/-- Enumerations of fields are defined. -/
theorem defines_of_mem_enums (hRegistry : (collect tables s).outcome = .ok registry)
    {className : String} {schema : Value} {d : Dto}
    (h : (Dto.ofSchema className registry schema).outcome = .ok d) {enum : Imported}
    (hEnum : enum ∈ d.enums) : registry.Defines enum.name := by
  obtain ⟨fields, enums, hFields, -, -, -, hEnums, hShown⟩ := exists_of_ofSchema_ok h
  rw [hEnums] at hEnum
  obtain ⟨name, hName, rfl⟩ := List.mem_map.mp hEnum
  obtain ⟨field, hField, hName⟩ := (hShown name).mp hName
  obtain ⟨_, _, _, _, -, hFieldOf⟩ := exists_fieldFor_of_mem hFields hField
  exact defines_of_enumOf? hRegistry (hName ▸ hFieldOf.enum)

end Registered

-- ---------------------------------------------------------------------------
-- Data classes
-- ---------------------------------------------------------------------------

/-- A response adds its class and loses none. -/
theorem addResponseDto_keys {dtos dtos' : Dictionary String Value} {e : Endpoint}
    (h : (addResponseDto dtos e).outcome = .ok dtos') :
    (∀ name ∈ dtos.keys, name ∈ dtos'.keys) ∧
      ∀ name ∈ e.response.bind Response.dto?, name ∈ dtos'.keys := by
  obtain ⟨rfl, hThere⟩ | ⟨response, className, hResponse, hClass, -, rfl⟩ := addResponseDto_cases h
  · refine ⟨fun _ => id, fun name hName => ?_⟩
    obtain ⟨entry, hEntry, hKey⟩ := List.any_eq_true.mp (hThere name hName)
    rw [← beq_iff_eq.mp hKey]
    exact List.mem_map_of_mem hEntry
  · refine ⟨fun name hName => Dictionary.mem_keys_put.mpr (Or.inl hName), fun name hName => ?_⟩
    rw [hResponse, Option.bind_some, hClass] at hName
    exact Dictionary.mem_keys_put.mpr (Or.inr (Option.some.inj hName).symm)

/-- All responses together lose nothing, and each has its class in the end. -/
theorem addResponseDtos_keys {endpoints : List Endpoint} {dtos dtos' : Dictionary String Value}
    (h : endpoints.foldlM (fun dtos e => (addResponseDto dtos e).outcome) dtos = .ok dtos') :
    (∀ name ∈ dtos.keys, name ∈ dtos'.keys) ∧
      ∀ e ∈ endpoints, ∀ name ∈ e.response.bind Response.dto?, name ∈ dtos'.keys := by
  induction endpoints generalizing dtos with
  | nil =>
    cases h
    exact ⟨fun _ => id, fun _ he => nomatch he⟩
  | cons e rest ih =>
    rw [List.foldlM_cons] at h
    obtain ⟨next, hStep, h⟩ := exists_of_bind_ok h
    obtain ⟨hKept, hOwn⟩ := addResponseDto_keys hStep
    obtain ⟨hLater, hRest⟩ := ih h
    refine ⟨fun name hName => hLater name (hKept name hName), ?_⟩
    intro e' he' name hName
    rcases List.mem_cons.mp he' with rfl | he'
    · exact hLater name (hOwn name hName)
    · exact hRest e' he' name hName

/-- The class of a response is a data class, whatever the components describe. -/
theorem dtosOf_implied {s : Specification} {dtos : Dictionary String Value}
    (h : (dtosOf s).outcome = .ok dtos) :
    ∀ e ∈ s.endpoints, ∀ name ∈ e.response.bind Response.dto?, name ∈ dtos.keys := by
  unfold dtosOf at h
  obtain ⟨components, -, h⟩ := Journal.exists_of_bind_ok h
  obtain ⟨all, hAll, h⟩ := Journal.exists_of_bind_ok h
  cases h
  rw [Journal.outcome_foldlM] at hAll
  intro e he name hName
  have hKey := (addResponseDtos_keys hAll).2 e he name hName
  exact ((List.mergeSort_perm all _).map Prod.fst).symm.subset hKey

-- ---------------------------------------------------------------------------
-- All units
-- ---------------------------------------------------------------------------

/-- The class that a request unit imports to decode its response. -/
def decodedClass? (e : Endpoint) : Option String :=
  (e.response.bind Response.dto?).filter (· != "")

/-- The emitters of a client: those of its endpoints with their names, of its resources, of its
enumerations and of its data classes. -/
inductive Emits (settings : Settings) (registry : Registry)
    (members : List (Endpoint × ResolvedName)) (dtos : Dictionary String Value) :
    Except Fault (String × String) → Prop where
  | request {m : Endpoint × ResolvedName} (hm : m ∈ members) :
      Emits settings registry members dtos (requestUnit settings registry m.1 m.2)
  | resource {resource : String} (hr : resource ∈ resourcesOf members) :
      Emits settings registry members dtos
        (resourceUnit settings registry resource (ofResource members resource))
  | enumeration {d : Definition} (hd : d ∈ registry.definitions.values) :
      Emits settings registry members dtos (enumUnit settings d)
  | dto {entry : String × Value} (he : entry ∈ dtos) :
      Emits settings registry members dtos
        (dtoUnit settings registry entry.1 entry.2).outcome

/-- The import lines of all units lead to units. -/
structure Closed (settings : Settings) (s : Specification) (registry : Registry)
    (names : Dictionary String ResolvedName) (units : Units)
    (members : List (Endpoint × ResolvedName)) (dtos : Dictionary String Value) : Prop where
  /-- the endpoints come with their names, each once and in their order -/
  endpoints : members.map Prod.fst = s.endpoints
  named : ∀ m ∈ members, names.get? m.1.key = some m.2
  /-- the data classes are those of the specification -/
  described : (dtosOf s).outcome = .ok dtos
  /-- every unit was made by one of the emitters -/
  made : ∀ unit ∈ units, Emits settings registry members dtos (.ok unit)
  /-- a request imports enumerations and a data class -/
  requests : ∀ m ∈ members, ∃ r, Request.ofEndpoint settings m.1 m.2 registry = .ok r ∧
    r.imports = Request.importsOf settings (Argument.enumNames r.arguments) (decodedClass? m.1)
      r.className ∧
    (∀ name ∈ Argument.enumNames r.arguments, EnumUnit.path settings name ∈ units.keys) ∧
    ∀ name ∈ decodedClass? m.1, Dto.path settings name ∈ units.keys
  /-- a resource imports enumerations and requests -/
  resources : ∀ resource ∈ resourcesOf members, ∃ r,
    Resource.ofMembers settings resource (ofResource members resource) registry = .ok r ∧
    r.imports = Resource.importsOf settings resource r.methods ∧
    (∀ name ∈ Argument.enumNames (r.methods.flatMap (·.arguments)),
      EnumUnit.path settings name ∈ units.keys) ∧
    ∀ method ∈ r.methods,
      unitPath [settings.requestFolder, resource] method.requestClass ∈ units.keys
  /-- a data class imports enumerations -/
  classes : ∀ entry ∈ dtos, ∃ d, (Dto.ofSchema entry.1 registry entry.2).outcome = .ok d ∧
    ∀ enum ∈ d.enums, EnumUnit.path settings enum.name ∈ units.keys

variable {settings : Settings} {registry : Registry}

/-- What an emitter makes in a traversal is a unit, at least by its path. -/
theorem path_mem_keys {α : Type} {f : α → Except Fault (String × String)} {path : α → String}
    {xs : List α} {ys : List (String × String)} {units : Units} (h : xs.mapM f = .ok ys)
    (hPath : ∀ x y, f x = .ok y → y.1 = path x) (hUnits : ∀ y ∈ ys, y.1 ∈ units.keys) :
    ∀ x ∈ xs, path x ∈ units.keys := by
  intro x hx
  obtain ⟨y, hy, hMade⟩ := exists_of_mapM_ok h x hx
  rw [← hPath x y hMade]
  exact hUnits y hy

/-- A unit among what the emitters made comes from one of them. -/
theorem emits_of_mem {members : List (Endpoint × ResolvedName)} {dtos : Dictionary String Value}
    {requests resources enums classes : List (String × String)}
    (hRequests : members.mapM (fun m => requestUnit settings registry m.1 m.2) = .ok requests)
    (hResources : (members.foldl addMember []).mapM (fun g => resourceUnit settings registry g.1 g.2) =
      .ok resources)
    (hEnums : registry.definitions.values.mapM (enumUnit settings) = .ok enums)
    (hClasses : dtos.mapM (fun e => (dtoUnit settings registry e.1 e.2).outcome) = .ok classes) :
    ∀ unit ∈ requests ++ resources ++ enums ++ classes,
      Emits settings registry members dtos (.ok unit) := by
  intro unit hUnit
  simp only [List.mem_append] at hUnit
  rcases hUnit with ((hMade | hMade) | hMade) | hMade
  · obtain ⟨m, hm, hOk⟩ := exists_of_mem_mapM hRequests unit hMade
    exact hOk ▸ .request hm
  · obtain ⟨⟨resource, group⟩, hGroup, hOk⟩ := exists_of_mem_mapM hResources unit hMade
    obtain ⟨rfl, -⟩ := mem_groups_iff.mp hGroup
    have hResource : resource ∈ resourcesOf members :=
      (groups_keys_perm members).subset (List.mem_map_of_mem hGroup)
    exact hOk ▸ .resource hResource
  · obtain ⟨d, hd, hOk⟩ := exists_of_mem_mapM hEnums unit hMade
    exact hOk ▸ .enumeration hd
  · obtain ⟨entry, hEntry, hOk⟩ := exists_of_mem_mapM hClasses unit hMade
    exact hOk ▸ .dto hEntry

/-- What a request unit imports besides its arguments' enumerations is set by its response. -/
theorem exists_of_request_ok {e : Endpoint} {resolved : ResolvedName} {r : Request}
    (h : Request.ofEndpoint settings e resolved registry = .ok r) :
    Argument.ofEndpoint e resolved registry = .ok r.arguments ∧
      r.className = resolved.requestClass ∧
      r.imports = Request.importsOf settings (Argument.enumNames r.arguments) (decodedClass? e)
        r.className := by
  obtain ⟨arguments, hArguments, h⟩ := exists_of_bind_ok h
  obtain ⟨url, -, h⟩ := exists_of_bind_ok h
  cases h
  exact ⟨hArguments, rfl, rfl⟩

/-- The methods of a resource are made for its members one by one, and name its imports. -/
theorem exists_of_resource_ok {resource : String} {members : List (Endpoint × ResolvedName)}
    {r : Resource} (h : Resource.ofMembers settings resource members registry = .ok r) :
    members.mapM (Resource.methodOf resource registry) = .ok r.methods ∧ r.className = resource ∧
      r.imports = Resource.importsOf settings resource r.methods := by
  obtain ⟨methods, hMethods, h⟩ := exists_of_bind_ok h
  cases h
  exact ⟨hMethods, rfl, rfl⟩

theorem exists_of_methodOf_ok {resource : String} {m : Endpoint × ResolvedName}
    {method : ResourceMethod} (h : Resource.methodOf resource registry m = .ok method) :
    Argument.ofEndpoint m.1 m.2 registry = .ok method.arguments ∧
      method.requestClass = m.2.requestClass := by
  obtain ⟨arguments, hArguments, h⟩ := exists_of_bind_ok h
  cases h
  exact ⟨hArguments, rfl⟩

/-- Enumerations of methods come from arguments as well. -/
theorem defines_of_mem_methods {tables : Tables} {s : Specification}
    (hRegistry : (collect tables s).outcome = .ok registry) {resource : String}
    {members : List (Endpoint × ResolvedName)} {methods : List ResourceMethod}
    (h : members.mapM (Resource.methodOf resource registry) = .ok methods) {name : String}
    (hName : name ∈ Argument.enumNames (methods.flatMap (·.arguments))) :
    registry.Defines name := by
  obtain ⟨a, ha, hEnum⟩ := mem_enumNames.mp hName
  obtain ⟨method, hMethod, ha⟩ := List.mem_flatMap.mp ha
  obtain ⟨m, -, hStep⟩ := exists_of_mem_mapM h method hMethod
  exact defines_of_mem_enumNames hRegistry (exists_of_methodOf_ok hStep).1
    (mem_enumNames.mpr ⟨a, ha, hEnum⟩)

/-- The units of a specification with its registry import each other only. -/
theorem units_closed {tables : Tables} {s : Specification} {names : Dictionary String ResolvedName}
    {units : Units} (hRegistry : (collect tables s).outcome = .ok registry)
    (h : (unitsOf settings s registry names).outcome = .ok units) :
    ∃ members dtos, Closed settings s registry names units members dtos := by
  obtain ⟨members, requests, resources, enums, dtos, classes, hMembers, hRequests, hResources, hEnums,
    hDtos, hClasses, hSorted⟩ := exists_of_unitsOf_ok h
  have hUnits : ∀ y ∈ requests ++ resources ++ enums ++ classes, y.1 ∈ units.keys := by
    intro y hy
    have hKey := Dictionary.mem_keys_ofEntries.mpr (List.mem_map_of_mem hy)
    rw [hSorted]
    exact ((List.mergeSort_perm _ _).map Prod.fst).symm.subset hKey
  have hRequestPath := path_mem_keys hRequests (fun m _ hm => requestUnit_path hm)
    fun y hy => hUnits y (by simp [hy])
  have hEnumPath := path_mem_keys hEnums (fun d _ hd => enumUnit_path hd)
    fun y hy => hUnits y (by simp [hy])
  have hClassPath := path_mem_keys hClasses (fun e _ he => dtoUnit_path he)
    fun y hy => hUnits y (by simp [hy])
  have hDefined : ∀ name, registry.Defines name → EnumUnit.path settings name ∈ units.keys := by
    intro name hName
    obtain ⟨d, hd, rfl⟩ := List.mem_map.mp hName
    exact hEnumPath d hd
  have hNamed := namedEndpoints_mem hMembers
  refine ⟨members, dtos, namedEndpoints_map_fst hMembers, fun m hm => (hNamed m hm).2, hDtos, ?_, ?_,
    ?_, ?_⟩
  · intro unit hUnit
    rw [hSorted, List.mem_mergeSort] at hUnit
    exact emits_of_mem hRequests hResources hEnums hClasses unit (Dictionary.mem_of_mem_ofEntries hUnit)
  · intro m hm
    obtain ⟨made, -, hMade⟩ := exists_of_mapM_ok hRequests m hm
    obtain ⟨r, hRequest, -⟩ := exists_of_bind_ok hMade
    obtain ⟨hArguments, -, hImports⟩ := exists_of_request_ok hRequest
    refine ⟨r, hRequest, hImports, ?_, ?_⟩
    · intro name hName
      exact hDefined name (defines_of_mem_enumNames hRegistry hArguments hName)
    · intro name hName
      have hImplied := dtosOf_implied hDtos m.1 (hNamed m hm).1 name (Option.filter_eq_some_iff.mp hName).1
      obtain ⟨entry, hEntry, rfl⟩ := List.mem_map.mp hImplied
      exact hClassPath entry hEntry
  · intro resource hResource
    obtain ⟨group, hGroup, rfl⟩ :=
      List.mem_map.mp ((groups_keys_perm members).symm.subset hResource)
    obtain ⟨made, -, hMade⟩ := exists_of_mapM_ok hResources group hGroup
    rw [(mem_groups_iff.mp hGroup).1] at hMade
    obtain ⟨r, hUnit, -⟩ := exists_of_bind_ok hMade
    obtain ⟨hMethods, -, hImports⟩ := exists_of_resource_ok hUnit
    refine ⟨r, hUnit, hImports, ?_, ?_⟩
    · intro name hName
      exact hDefined name (defines_of_mem_methods hRegistry hMethods hName)
    · -- the request of a member lies in the folder of its resource, which is this one
      intro method hMethod
      obtain ⟨m, hm, hStep⟩ := exists_of_mem_mapM hMethods method hMethod
      obtain ⟨hm, hOfResource⟩ := List.mem_filter.mp hm
      rw [(exists_of_methodOf_ok hStep).2, ← beq_iff_eq.mp hOfResource]
      exact hRequestPath m hm
  · intro entry hEntry
    obtain ⟨made, -, hMade⟩ := exists_of_mapM_ok hClasses entry hEntry
    obtain ⟨d, hDto, -⟩ := Journal.exists_of_bind_ok hMade
    exact ⟨d, hDto, fun enum hEnum => hDefined _ (defines_of_mem_enums hRegistry hDto hEnum)⟩

/-- A client that is generated holds what its passes found. -/
theorem exists_of_generate_ok {document : Value} {g : Generated}
    (h : (generate settings document).outcome = .ok g) :
    ∃ resolution, (Specification.ofDocument settings document).outcome = .ok g.specification ∧
      (collect settings.tables g.specification).outcome = .ok g.registry ∧
      (resolve settings g.specification.endpoints).outcome = .ok resolution ∧
      g.names = resolution.names ∧
      (unitsOf settings g.specification g.registry g.names).outcome = .ok g.units := by
  unfold generate at h
  obtain ⟨s, hSpecification, h⟩ := Journal.exists_of_bind_ok h
  obtain ⟨registry, hRegistry, h⟩ := Journal.exists_of_bind_ok h
  obtain ⟨resolution, hResolution, h⟩ := Journal.exists_of_bind_ok h
  obtain ⟨units, hUnits, h⟩ := Journal.exists_of_bind_ok h
  cases h
  exact ⟨resolution, hSpecification, hRegistry, hResolution, rfl, hUnits⟩

/--
**No import dangles.** For every document and all settings: whenever a client is
generated, the enumerations, the data class and the requests that its units import
have units themselves.
-/
theorem generate_closed {document : Value} {g : Generated}
    (h : (generate settings document).outcome = .ok g) :
    ∃ members dtos, Closed settings g.specification g.registry g.names g.units members dtos := by
  obtain ⟨_, -, hRegistry, -, -, hUnits⟩ := exists_of_generate_ok h
  exact units_closed hRegistry hUnits

/-- A client is generated once all passes succeed. -/
theorem exists_generate_ok {settings : Settings} {document : Value} {s : Specification}
    {registry : Registry} {resolution : Resolution} {members : List (Endpoint × ResolvedName)}
    {requests resources enums classes : List (String × String)} {dtos : Dictionary String Value}
    (hSpecification : (Specification.ofDocument settings document).outcome = .ok s)
    (hRegistry : (collect settings.tables s).outcome = .ok registry)
    (hResolution : (resolve settings s.endpoints).outcome = .ok resolution)
    (hMembers : namedEndpoints s resolution.names = .ok members)
    (hRequests : members.mapM (fun m => requestUnit settings registry m.1 m.2) = .ok requests)
    (hResources : (members.foldl addMember []).mapM (fun g => resourceUnit settings registry g.1 g.2) =
      .ok resources)
    (hEnums : registry.definitions.values.mapM (enumUnit settings) = .ok enums)
    (hDtos : (dtosOf s).outcome = .ok dtos)
    (hClasses : dtos.mapM (fun e => (dtoUnit settings registry e.1 e.2).outcome) = .ok classes) :
    ∃ g, (generate settings document).outcome = .ok g ∧ g.specification = s ∧
      g.registry = registry ∧ g.names = resolution.names := by
  unfold generate unitsOf
  simp only [Journal.outcome_bind, Journal.outcome_lift, Journal.outcome_mapM, Journal.outcome_pure,
    hSpecification, hRegistry, hResolution, hMembers, hRequests, hResources, hEnums, hDtos, hClasses,
    ok_bind]
  exact ⟨_, rfl, rfl, rfl, rfl⟩

-- ---------------------------------------------------------------------------
-- Bare data classes
-- ---------------------------------------------------------------------------

/-- The schema states nothing of its objects. -/
def isBare (schema : Value) : Bool :=
  schema.isMapping && ["allOf", "required", "properties"].all fun key => (schema.field? key).isNone

/-- A schema that states nothing of its objects has a unit. -/
theorem exists_dtoUnit_of_bare (settings : Settings) (registry : Registry) (name : String) {schema : Value}
    (hBare : isBare schema = true) :
    ∃ unit, (dtoUnit settings registry name schema).outcome = .ok unit := by
  simp only [isBare, List.all_cons, List.all_nil, Bool.and_true, Bool.and_eq_true,
    Option.isNone_iff_eq_none] at hBare
  obtain ⟨hMapping, hPlain, hRequired, hProperties⟩ := hBare
  unfold dtoUnit Dto.ofSchema Dto.fieldsOf
  simp only [Journal.outcome_bind, Journal.outcome_lift, Schema.merge_of_plain hMapping hPlain, ok_bind,
    Value.member_of_isMapping hMapping, hRequired, hProperties]
  exact ⟨_, rfl⟩

/-- The passes over a document in which the data classes are found but not yet written: the
specification, its named endpoints and the data classes with their schemas. -/
def passes (settings : Settings) (document : Value) :
    Except Fault (Specification × List (Endpoint × ResolvedName) × Dictionary String Value) := do
  let s ← (Specification.ofDocument settings document).outcome
  let registry ← (collect settings.tables s).outcome
  let resolution ← (resolve settings s.endpoints).outcome
  let members ← namedEndpoints s resolution.names
  let _ ← members.mapM fun m => requestUnit settings registry m.1 m.2
  let _ ← (members.foldl addMember []).mapM fun g => resourceUnit settings registry g.1 g.2
  let _ ← registry.definitions.values.mapM (enumUnit settings)
  return (s, members, ← (dtosOf s).outcome)

theorem of_passes_ok {settings : Settings} {document : Value} {s : Specification}
    {members : List (Endpoint × ResolvedName)} {dtos : Dictionary String Value}
    (h : passes settings document = .ok (s, members, dtos)) :
    (Specification.ofDocument settings document).outcome = .ok s ∧ (dtosOf s).outcome = .ok dtos := by
  obtain ⟨_, hSpecification, h⟩ := exists_of_bind_ok h
  obtain ⟨_, -, h⟩ := exists_of_bind_ok h
  obtain ⟨_, -, h⟩ := exists_of_bind_ok h
  obtain ⟨_, -, h⟩ := exists_of_bind_ok h
  obtain ⟨_, -, h⟩ := exists_of_bind_ok h
  obtain ⟨_, -, h⟩ := exists_of_bind_ok h
  obtain ⟨_, -, h⟩ := exists_of_bind_ok h
  obtain ⟨_, hDtos, h⟩ := exists_of_bind_ok h
  cases h
  exact ⟨hSpecification, hDtos⟩

/-- Bare data classes can be written, so a client is generated if nothing fails before. -/
theorem exists_generate_of_passes {settings : Settings} {document : Value} {s : Specification}
    {members : List (Endpoint × ResolvedName)} {dtos : Dictionary String Value}
    (h : passes settings document = .ok (s, members, dtos))
    (hBare : dtos.all (fun e => isBare e.2) = true) :
    ∃ g, (generate settings document).outcome = .ok g ∧ g.specification = s ∧
      namedEndpoints s g.names = .ok members ∧ (dtosOf s).outcome = .ok dtos := by
  obtain ⟨_, hSpecification, h⟩ := exists_of_bind_ok h
  obtain ⟨registry, hRegistry, h⟩ := exists_of_bind_ok h
  obtain ⟨resolution, hResolution, h⟩ := exists_of_bind_ok h
  obtain ⟨_, hMembers, h⟩ := exists_of_bind_ok h
  obtain ⟨requests, hRequests, h⟩ := exists_of_bind_ok h
  obtain ⟨resources, hResources, h⟩ := exists_of_bind_ok h
  obtain ⟨enums, hEnums, h⟩ := exists_of_bind_ok h
  obtain ⟨_, hDtos, h⟩ := exists_of_bind_ok h
  cases h
  have hClasses : ∃ classes, dtos.mapM (fun e => (dtoUnit settings registry e.1 e.2).outcome) =
      .ok classes :=
    exists_mapM_ok fun e he =>
      exists_dtoUnit_of_bare settings registry e.1 (List.all_eq_true.mp hBare e he)
  obtain ⟨classes, hClasses⟩ := hClasses
  obtain ⟨g, hRun, hSame, -, hNames⟩ := exists_generate_ok hSpecification hRegistry hResolution hMembers
    hRequests hResources hEnums hDtos hClasses
  exact ⟨g, hRun, hSame, hNames ▸ hMembers, hDtos⟩

/-- A listing whose response has a well-known property, in a document without components. -/
def userListing : Value :=
  .map [(.str "info", .map []), (.str "paths", .map [(.str "/users", .map [(.str "get", .map [
    (.str "operationId", .str "listUsers"),
    (.str "responses", .map [(.str "200", .map [(.str "content", .map [(.str "application/json",
      .map [(.str "schema", .map [(.str "properties", .map [(.str "users",
        .map [(.str "type", .str "array")])])])])])])])])])])]

/-- A client is generated, and the class that its request decodes has a unit. -/
theorem generate_userListing :
    ∃ g members dtos, (generate {} userListing).outcome = .ok g ∧
      g.specification.endpoints.map decodedClass? = [some "User"] ∧
      Closed {} g.specification g.registry g.names g.units members dtos := by
  have hPasses : ((passes {} userListing).toOption.map fun found =>
      (found.1.endpoints.map decodedClass?, found.2.2.all fun e => isBare e.2)) =
        some ([some "User"], true) := by
    decide +kernel
  obtain ⟨⟨s, _, dtos⟩, hFound, hAll⟩ := Option.map_eq_some_iff.mp hPasses
  obtain ⟨hDecoded, hBare⟩ := Prod.mk.inj hAll
  obtain ⟨g, hRun, rfl, -⟩ := exists_generate_of_passes (ok_of_toOption hFound) hBare
  obtain ⟨members, dtos, hClosed⟩ := generate_closed hRun
  exact ⟨g, members, dtos, hRun, hDecoded, hClosed⟩

end ClientGen.Unit
