import ClientGen.Generate
import ClientGen.Proofs.Unit.Paths

/-!
# No unit is lost

The units of a client are put into one mapping by four emitters, which know nothing
of each other. This module accounts for all of them: the keys of the mapping are the
paths of the endpoints, the resources, the enumerations and the data classes, each
once, and at each key stands the text that the emitter made for it.

Main results:

* `units_complete` — for settings with four folders, a normal specification and
  collision free names, nothing is overwritten.
* `generate_complete` — so it is for whatever a document generates.
-/

namespace ClientGen.Unit

open ClientGen.Api ClientGen.Document ClientGen.Enumeration ClientGen.Naming

-- ---------------------------------------------------------------------------
-- What is accounted for
-- ---------------------------------------------------------------------------

/-- The emitter made a unit for the path, and its text stands there. -/
def Emitted (units : Units) (path : String) (made : Except Fault (String × String)) : Prop :=
  ∃ text, made = .ok (path, text) ∧ units.get? path = some text

/-- The units of a specification are those of its endpoints with their names, of its
resources, of its enumerations and of its data classes. -/
structure Complete (settings : Settings) (s : Specification) (registry : Registry)
    (names : Dictionary String ResolvedName) (units : Units)
    (members : List (Endpoint × ResolvedName)) (dtos : Dictionary String Value) : Prop where
  /-- the endpoints come with their names, each once and in their order -/
  endpoints : members.map Prod.fst = s.endpoints
  named : ∀ m ∈ members, names.get? m.1.key = some m.2
  /-- the data classes are those of the specification -/
  described : (dtosOf s).outcome = .ok dtos
  /-- no two of all paths are the same -/
  nodup : (unitPaths settings members registry dtos).Nodup
  /-- the units have these paths and no others -/
  keys : units.keys.Perm (unitPaths settings members registry dtos)
  /-- at the path of each unit stands the text of its own emitter call -/
  requests : ∀ m ∈ members,
    Emitted units (Request.path settings m.2) (requestUnit settings registry m.1 m.2)
  resources : ∀ resource ∈ resourcesOf members, Emitted units (Resource.path settings resource)
    (resourceUnit settings registry resource (ofResource members resource))
  enums : ∀ d ∈ registry.definitions.values,
    Emitted units (EnumUnit.path settings d.name) (enumUnit settings d)
  classes : ∀ entry ∈ dtos, Emitted units (Dto.path settings entry.1)
    (dtoUnit settings registry entry.1 entry.2).outcome
  /-- each endpoint is a member of exactly one of the resources -/
  placed : ∀ e ∈ s.endpoints, ∃! resource,
    resource ∈ resourcesOf members ∧ ∃ m ∈ ofResource members resource, m.1 = e

-- ---------------------------------------------------------------------------
-- The emitters
-- ---------------------------------------------------------------------------

/-- Writing the units goes through the endpoints, their groups, the enumerations and the data classes. -/
theorem exists_of_unitsOf_ok {settings : Settings} {s : Specification} {registry : Registry}
    {names : Dictionary String ResolvedName} {units : Units}
    (h : (unitsOf settings s registry names).outcome = .ok units) :
    ∃ members requests resources enums dtos classes, namedEndpoints s names = .ok members ∧
      members.mapM (fun m => requestUnit settings registry m.1 m.2) = .ok requests ∧
      (members.foldl addMember []).mapM (fun g => resourceUnit settings registry g.1 g.2) =
        .ok resources ∧
      registry.definitions.values.mapM (enumUnit settings) = .ok enums ∧
      (dtosOf s).outcome = .ok dtos ∧
      dtos.mapM (fun e => (dtoUnit settings registry e.1 e.2).outcome) = .ok classes ∧
      units = (Dictionary.ofEntries (requests ++ resources ++ enums ++ classes)).mergeSort
        fun a b => decide (a.1 ≤ b.1) := by
  unfold unitsOf at h
  obtain ⟨members, hMembers, h⟩ := Journal.exists_of_bind_ok h
  obtain ⟨requests, hRequests, h⟩ := Journal.exists_of_bind_ok h
  obtain ⟨resources, hResources, h⟩ := Journal.exists_of_bind_ok h
  obtain ⟨enums, hEnums, h⟩ := Journal.exists_of_bind_ok h
  obtain ⟨dtos, hDtos, h⟩ := Journal.exists_of_bind_ok h
  obtain ⟨classes, hClasses, h⟩ := Journal.exists_of_bind_ok h
  rw [Journal.outcome_mapM] at hRequests hResources hEnums hClasses
  exact ⟨members, requests, resources, enums, dtos, classes, hMembers, hRequests, hResources, hEnums,
    hDtos, hClasses, (Except.ok.inj h).symm⟩

/-- A unit that is made by following up a first step with a path has this path. -/
private theorem path_of_bind_ok {α : Type} {x : Except Fault α} {path : String} {text : α → String}
    {made : String × String} (h : (x >>= fun a => (.ok (path, text a) : Except Fault _)) = .ok made) :
    made.1 = path := by
  obtain ⟨a, -, h⟩ := exists_of_bind_ok h
  cases h
  rfl

variable {settings : Settings} {registry : Registry} {made : String × String}

theorem requestUnit_path {m : Endpoint × ResolvedName}
    (h : requestUnit settings registry m.1 m.2 = .ok made) : made.1 = Request.path settings m.2 :=
  path_of_bind_ok h

theorem resourceUnit_path {resource : String} {members : List (Endpoint × ResolvedName)}
    (h : resourceUnit settings registry resource members = .ok made) :
    made.1 = Resource.path settings resource :=
  path_of_bind_ok h

theorem enumUnit_path {d : Definition} (h : enumUnit settings d = .ok made) :
    made.1 = EnumUnit.path settings d.name :=
  path_of_bind_ok h

theorem dtoUnit_path {name : String} {schema : Value}
    (h : (dtoUnit settings registry name schema).outcome = .ok made) :
    made.1 = Dto.path settings name := by
  unfold dtoUnit at h
  rw [Journal.outcome_bind] at h
  exact path_of_bind_ok h

/-- The groups of some endpoints are those of their resources. -/
theorem groups_keys_perm (members : List (Endpoint × ResolvedName)) :
    (Dictionary.keys (members.foldl addMember [])).Perm (resourcesOf members) := by
  have hGrouped := groups_grouped members
  unfold resourcesOf
  rw [List.perm_ext_iff_of_nodup (Dictionary.distinct_iff_nodup.mp hGrouped.distinct) (nodup_eraseDups _)]
  intro resource
  rw [List.mem_eraseDups, List.mem_map]
  constructor
  · intro hKey
    obtain ⟨m, hm⟩ := List.exists_mem_of_ne_nil _ (hGrouped.keys resource hKey)
    obtain ⟨hMem, hResource⟩ := List.mem_filter.mp hm
    exact ⟨m, hMem, beq_iff_eq.mp hResource⟩
  · rintro ⟨m, hMem, rfl⟩
    have hGroup : ofResource members m.2.resourceClass ≠ [] :=
      List.ne_nil_of_mem (List.mem_filter.mpr ⟨hMem, beq_self_eq_true _⟩)
    exact List.mem_map_of_mem (mem_groups_iff.mpr ⟨rfl, hGroup⟩)

-- ---------------------------------------------------------------------------
-- The mapping
-- ---------------------------------------------------------------------------

/-- Units with different paths are put side by side: the mapping holds just them. -/
theorem units_of_entries {entries : List (String × String)} {units : Units}
    (hPaths : (entries.map Prod.fst).Nodup)
    (hUnits : units = (Dictionary.ofEntries entries).mergeSort fun a b => decide (a.1 ≤ b.1)) :
    units.keys.Perm (entries.map Prod.fst) ∧
      ∀ path text, (path, text) ∈ entries → units.get? path = some text := by
  have hDistinct : Dictionary.Distinct entries := Dictionary.distinct_iff_nodup.mpr hPaths
  rw [Dictionary.ofEntries_eq_self hDistinct] at hUnits
  have hPerm : units.Perm entries := by
    rw [hUnits]
    exact List.mergeSort_perm _ _
  have hKeys : units.keys.Perm (entries.map Prod.fst) := hPerm.map Prod.fst
  refine ⟨hKeys, ?_⟩
  intro path text hMem
  rw [Dictionary.get?_eq_some_iff (Dictionary.distinct_iff_nodup.mpr (hKeys.nodup_iff.mpr hPaths))]
  exact hPerm.symm.subset hMem

/-- Each step of an emitter's traversal puts its text at its path. -/
theorem emitted_of_mapM_ok {α : Type} {f : α → Except Fault (String × String)} {path : α → String}
    {xs : List α} {ys : List (String × String)} {units : Units} (h : xs.mapM f = .ok ys)
    (hPath : ∀ x y, f x = .ok y → y.1 = path x)
    (hUnits : ∀ p text, (p, text) ∈ ys → units.get? p = some text) :
    ∀ x ∈ xs, Emitted units (path x) (f x) := by
  intro x hx
  obtain ⟨⟨p, text⟩, hMem, hMade⟩ := exists_of_mapM_ok h x hx
  obtain rfl : p = path x := hPath x _ hMade
  exact ⟨text, hMade, hUnits _ text hMem⟩

/-- Members are told apart by their endpoints, so each endpoint has one resource. -/
theorem existsUnique_resource {s : Specification} {names : Dictionary String ResolvedName}
    {members : List (Endpoint × ResolvedName)} (hMembers : members.map Prod.fst = s.endpoints)
    (hNamed : ∀ m ∈ members, names.get? m.1.key = some m.2) {e : Endpoint} (he : e ∈ s.endpoints) :
    ∃! resource, resource ∈ resourcesOf members ∧ ∃ m ∈ ofResource members resource, m.1 = e := by
  rw [← hMembers] at he
  obtain ⟨m, hm, rfl⟩ := List.mem_map.mp he
  refine ⟨m.2.resourceClass, ⟨?_, m, ?_, rfl⟩, ?_⟩
  · exact List.mem_eraseDups.mpr (List.mem_map_of_mem hm)
  · exact List.mem_filter.mpr ⟨hm, beq_self_eq_true _⟩
  · rintro resource ⟨-, n, hn, hSame⟩
    obtain ⟨hn, hResource⟩ := List.mem_filter.mp hn
    have hNames := hNamed n hn
    rw [hSame, hNamed m hm] at hNames
    rw [Option.some.inj hNames]
    exact (beq_iff_eq.mp hResource).symm

/-- What the emitters made has the paths of all units. -/
theorem made_paths_perm {members : List (Endpoint × ResolvedName)} {dtos : Dictionary String Value}
    {requests resources enums classes : List (String × String)}
    (hRequests : members.mapM (fun m => requestUnit settings registry m.1 m.2) = .ok requests)
    (hResources : (members.foldl addMember []).mapM (fun g => resourceUnit settings registry g.1 g.2) =
      .ok resources)
    (hEnums : registry.definitions.values.mapM (enumUnit settings) = .ok enums)
    (hClasses : dtos.mapM (fun e => (dtoUnit settings registry e.1 e.2).outcome) = .ok classes) :
    ((requests ++ resources ++ enums ++ classes).map Prod.fst).Perm
      (unitPaths settings members registry dtos) := by
  rw [List.map_append, List.map_append, List.map_append,
    map_eq_of_mapM_ok hRequests fun m _ _ hm => requestUnit_path hm,
    map_eq_of_mapM_ok hResources fun g _ _ hg => resourceUnit_path hg,
    map_eq_of_mapM_ok hEnums fun d _ _ hd => enumUnit_path hd,
    map_eq_of_mapM_ok hClasses fun e _ _ he => dtoUnit_path he]
  have hClassPaths : dtos.map (fun e => Dto.path settings e.1) = dtoPaths settings dtos := by
    unfold dtoPaths Dictionary.keys
    rw [List.map_map]
    rfl
  -- only the resources come in an order of their own, that of their first endpoints
  have hResourcePaths : ((members.foldl addMember [] : Groups).map fun g =>
      Resource.path settings g.1).Perm (resourcePaths settings members) := by
    have hMapped := (groups_keys_perm members).map (Resource.path settings)
    unfold Dictionary.keys at hMapped
    rwa [List.map_map] at hMapped
  rw [hClassPaths]
  exact ((hResourcePaths.append_left _).append_right _).append_right _

/-- With four folders, collision free names and names of enumerations that are all
different, all units are accounted for. -/
theorem units_complete {s : Specification} {r : Resolution} {found : List Occurrence} {units : Units}
    (hFolders : FoldersApart settings) (hKeys : (s.endpoints.map Endpoint.key).Nodup)
    (hFree : CollisionFree settings s.endpoints r) (hNames : Names found registry.bySignature)
    (hEntries : registry.definitions = definitionEntries found registry.bySignature)
    (h : (unitsOf settings s registry r.names).outcome = .ok units) :
    ∃ members dtos, Complete settings s registry r.names units members dtos := by
  obtain ⟨members, requests, resources, enums, dtos, classes, hMembers, hRequests, hResources, hEnums,
    hDtos, hClasses, hUnits⟩ := exists_of_unitsOf_ok h
  have hNamed : ∀ m ∈ members, r.names.get? m.1.key = some m.2 := fun m hm =>
    (namedEndpoints_mem hMembers m hm).2
  have hEndpoints := namedEndpoints_map_fst hMembers
  have hMade := made_paths_perm hRequests hResources hEnums hClasses
  have hNodup : (unitPaths settings members registry dtos).Nodup := by
    refine unitPaths_nodup hFolders ?_ ?_ ?_
    · exact requestPaths_nodup hFree hKeys hEndpoints hNamed
    · exact enumPaths_nodup hNames hEntries
    · exact dtoPaths_nodup settings (dtosOf_distinct hDtos)
  obtain ⟨hUnitKeys, hUnit⟩ := units_of_entries (hMade.nodup_iff.mpr hNodup) hUnits
  refine ⟨members, dtos, hEndpoints, hNamed, hDtos, hNodup, hUnitKeys.trans hMade, ?_, ?_, ?_, ?_, ?_⟩
  · refine emitted_of_mapM_ok hRequests (fun m _ hm => requestUnit_path hm) fun p text hMem => ?_
    exact hUnit p text (by simp [hMem])
  · -- the group of a resource has just the endpoints of the resource
    intro resource hResource
    obtain ⟨group, hGroup, rfl⟩ :=
      List.mem_map.mp ((groups_keys_perm members).symm.subset hResource)
    have hText : ∀ p text, (p, text) ∈ resources → units.get? p = some text := by
      intro p text hMem
      exact hUnit p text (by simp [hMem])
    have hEmitted :=
      emitted_of_mapM_ok hResources (fun g _ hg => resourceUnit_path hg) hText group hGroup
    rwa [(mem_groups_iff.mp hGroup).1] at hEmitted
  · refine emitted_of_mapM_ok hEnums (fun d _ hd => enumUnit_path hd) fun p text hMem => ?_
    exact hUnit p text (by simp [hMem])
  · refine emitted_of_mapM_ok hClasses (fun e _ he => dtoUnit_path he) fun p text hMem => ?_
    exact hUnit p text (by simp [hMem])
  · intro e he
    exact existsUnique_resource hEndpoints hNamed he

/--
**No unit is lost.** For a document whose mappings have no key twice and settings with
four different folders: whenever a client is generated, its units are those of all
endpoints, resources, enumerations and data classes, each at its own path.
-/
theorem generate_complete {settings : Settings} {document : Value} {g : Generated}
    (hDocument : document.wellKeyed = true) (hFolders : FoldersApart settings)
    (h : (generate settings document).outcome = .ok g) :
    ∃ members dtos,
      Complete settings g.specification g.registry g.names g.units members dtos := by
  unfold generate at h
  obtain ⟨s, hSpecification, h⟩ := Journal.exists_of_bind_ok h
  obtain ⟨registry, hRegistry, h⟩ := Journal.exists_of_bind_ok h
  obtain ⟨resolution, hResolution, h⟩ := Journal.exists_of_bind_ok h
  obtain ⟨units, hUnits, h⟩ := Journal.exists_of_bind_ok h
  cases h
  have hKeys := (ofDocument_normal hDocument hSpecification).keys
  obtain ⟨found, -, hRun, hDefinitions, -⟩ := exists_of_collect_ok hRegistry
  have hNames := names_of_assignNames_ok hRun
  exact units_complete hFolders hKeys (resolve_tracks hKeys hResolution).collisionFree hNames
    (hNames.definitions_eq hDefinitions) hUnits

theorem defaultFolders_apart : FoldersApart {} := ⟨by decide, by decide⟩

/-- A document with three operations, two of which want one name. -/
def threeOperations : Value :=
  .map [(.str "info", .map []), (.str "paths", .map [(.str "/users", .map [
    (.str "get", .map [(.str "operationId", .str "getUser")]),
    (.str "post", .map [(.str "operationId", .str "get_user")]),
    (.str "put", .map [(.str "operationId", .str "list")])])])]

/-- All three have their units under the default settings. -/
theorem generate_threeOperations :
    ∃ g members dtos, (generate {} threeOperations).outcome = .ok g ∧
      g.specification.endpoints.map Endpoint.key = ["GET /users", "POST /users", "PUT /users"] ∧
      Complete {} g.specification g.registry g.names g.units members dtos := by
  have hKeys : ((generate {} threeOperations).outcome.toOption.map fun g =>
      g.specification.endpoints.map Endpoint.key) =
        some ["GET /users", "POST /users", "PUT /users"] := by
    decide +kernel
  cases hRun : (generate {} threeOperations).outcome with
  | error _ =>
    rw [hRun] at hKeys
    cases hKeys
  | ok g =>
    rw [hRun] at hKeys
    obtain ⟨members, dtos, hComplete⟩ :=
      generate_complete (by decide +kernel) defaultFolders_apart hRun
    exact ⟨g, members, dtos, rfl, Option.some.inj hKeys, hComplete⟩

end ClientGen.Unit
