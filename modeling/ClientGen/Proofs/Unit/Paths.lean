import ClientGen.Proofs.Api.Normal
import ClientGen.Proofs.Enumeration.Assignment
import ClientGen.Proofs.Naming.Collisions
import ClientGen.Proofs.Unit.Groups

/-!
# Paths of units

All units of a client go into one mapping from paths to texts, so two units with
one path would silently be one. The folder of a path tells the four kinds of units
apart as long as the settings name four different folders; within a kind the names
of the passes before do: request classes differ within a resource, resources are
grouped, and the names of enumerations and of data classes are keys.

Main results:

* `folder_inj` — a path tells its folder.
* `requestPaths_nodup`, `resourcePaths_nodup`, `enumPaths_nodup`, `dtoPaths_nodup` —
  within a kind no two units have the same path.
* `unitPaths_nodup` — nor do any two units.
-/

namespace ClientGen.Unit

open ClientGen.Api ClientGen.Document ClientGen.Enumeration ClientGen.Naming ClientGen.Text

-- ---------------------------------------------------------------------------
-- Folders
-- ---------------------------------------------------------------------------

/-- The text holds no slash. -/
def Plain (text : String) : Prop := '/' ∉ text.toList

instance (text : String) : Decidable (Plain text) := inferInstanceAs (Decidable (_ ∉ _))

/-- The part before the first slash and the part after it are read off a path. -/
theorem folder_inj {f g rest rest' : String} (hf : Plain f) (hg : Plain g)
    (h : f ++ "/" ++ rest = g ++ "/" ++ rest') : f = g ∧ rest = rest' := by
  have hChars := congrArg String.toList h
  have hSlash : "/".toList = ['/'] := rfl
  rw [String.toList_append, String.toList_append, String.toList_append, String.toList_append, hSlash,
    List.append_assoc, List.append_assoc] at hChars
  obtain ⟨hFolder, hRest⟩ := append_cons_inj hf hg hChars
  exact ⟨String.toList_inj.mp hFolder, String.toList_inj.mp hRest⟩

theorem unitPath_folder (folder name : String) :
    unitPath [folder] name = folder ++ "/" ++ (name ++ ".py") := rfl

theorem unitPath_folders (folder group name : String) :
    unitPath [folder, group] name = folder ++ "/" ++ (group ++ "/" ++ (name ++ ".py")) := by
  show folder ++ "/" ++ group ++ "/" ++ (name ++ ".py") = _
  simp only [String.append_assoc]

theorem fileName_inj {name name' : String} (h : name ++ ".py" = name' ++ ".py") : name = name' :=
  (String.append_left_inj ".py").mp h

theorem unitPath_inj {folder : String} {name name' : String}
    (h : unitPath [folder] name = unitPath [folder] name') : name = name' := by
  rw [unitPath_folder, unitPath_folder] at h
  exact fileName_inj ((String.append_right_inj _).mp h)

/-- The folders of the four kinds of units. -/
def folders (settings : Settings) : List String :=
  [settings.requestFolder, settings.resourceFolder, settings.enumFolder, settings.dtoFolder]

/-- The settings name four different folders, each by a plain name. -/
structure FoldersApart (settings : Settings) : Prop where
  nodup : (folders settings).Nodup
  plain : ∀ folder ∈ folders settings, Plain folder

/-- Identifiers hold no slash unless their guard does. -/
theorem plain_identifier {value guard : String} (hGuard : Plain guard) :
    Plain (identifier value guard) := by
  have hKept : '/' ∉ value.toList.filter isIdentifierChar := by
    intro hMem
    exact absurd (List.mem_filter.mp hMem).2 (by decide)
  have hResult : (identifier value guard).toList = value.toList.filter isIdentifierChar ∨
      (identifier value guard).toList = guard.toList ++ value.toList.filter isIdentifierChar := by
    unfold identifier
    dsimp only
    split
    · right
      rw [String.toList_append, String.toList_ofList]
    · left
      rw [String.toList_ofList]
  unfold Plain
  rcases hResult with hResult | hResult
  · rw [hResult]
    exact hKept
  · rw [hResult, List.mem_append]
    rintro (hMem | hMem)
    · exact hGuard hMem
    · exact hKept hMem

theorem plain_resourceClass (collection : String) : Plain (resourceClass collection) :=
  plain_identifier (by decide)

-- ---------------------------------------------------------------------------
-- Within a kind
-- ---------------------------------------------------------------------------

/-- The resources of some endpoints, each once. -/
def resourcesOf (members : List (Endpoint × ResolvedName)) : List String :=
  (members.map fun m => m.2.resourceClass).eraseDups

/-- The paths of the request units of some endpoints. -/
def requestPaths (settings : Settings) (members : List (Endpoint × ResolvedName)) : List String :=
  members.map fun m => Request.path settings m.2

/-- The paths of their resource units. -/
def resourcePaths (settings : Settings) (members : List (Endpoint × ResolvedName)) : List String :=
  (resourcesOf members).map (Resource.path settings)

/-- The paths of the units of enumerations. -/
def enumPaths (settings : Settings) (registry : Registry) : List String :=
  registry.definitions.values.map fun d => EnumUnit.path settings d.name

/-- The paths of the units of data classes. -/
def dtoPaths (settings : Settings) (dtos : Dictionary String Value) : List String :=
  dtos.keys.map (Dto.path settings)

/-- Endpoints with collision free names, in any list without repetition, have request units of
their own: they differ in the resource, which is a part of the path, or in the class. -/
theorem requestPaths_nodup {settings : Settings} {endpoints : List Endpoint} {r : Resolution}
    {members : List (Endpoint × ResolvedName)} (hFree : CollisionFree settings endpoints r)
    (hKeys : (endpoints.map Endpoint.key).Nodup) (hMembers : members.map Prod.fst = endpoints)
    (hNamed : ∀ m ∈ members, r.names.get? m.1.key = some m.2) :
    (requestPaths settings members).Nodup := by
  have hEndpoint : ∀ m ∈ members, m.1 ∈ endpoints := by
    intro m hm
    rw [← hMembers]
    exact List.mem_map_of_mem hm
  have hPlain : ∀ m ∈ members, Plain m.2.resourceClass := by
    intro m hm
    obtain ⟨n, hn, hGroup, -⟩ := hFree.named m.1 (hEndpoint m hm)
    rw [hNamed m hm] at hn
    rw [Option.some.inj hn, hGroup]
    exact plain_resourceClass _
  rw [← hMembers, List.map_map, List.nodup_iff_pairwise_ne, List.pairwise_map] at hKeys
  unfold requestPaths
  rw [List.nodup_iff_pairwise_ne, List.pairwise_map]
  refine hKeys.imp_of_mem ?_
  intro m n hm hn hDiffer hSame
  rw [Request.path, Request.path, unitPath_folders, unitPath_folders, String.append_right_inj] at hSame
  obtain ⟨hResource, hFile⟩ := folder_inj (hPlain m hm) (hPlain n hn) hSame
  have hApart := hFree.apart m.1 (hEndpoint m hm) n.1 (hEndpoint n hn) hDiffer m.2 n.2 (hNamed m hm)
    (hNamed n hn) hResource
  exact hApart.2 (fileName_inj hFile)

theorem resourcePaths_nodup (settings : Settings) (members : List (Endpoint × ResolvedName)) :
    (resourcePaths settings members).Nodup :=
  (nodup_eraseDups _).map_on fun _ _ _ _ hSame => unitPath_inj hSame

/-- Enumerations have units of their own, since no two have the same name. -/
theorem enumPaths_nodup {settings : Settings} {registry : Registry} {found : List Occurrence}
    (hNames : Names found registry.bySignature)
    (hEntries : registry.definitions = definitionEntries found registry.bySignature) :
    (enumPaths settings registry).Nodup := by
  have hPerm := List.mergeSort_perm registry.bySignature fun a b => decide (a.2 ≤ b.2)
  have hValues : ((registry.definitions.values).map Definition.name).Nodup := by
    rw [hEntries]
    show ((List.map Prod.snd (definitionEntries found registry.bySignature)).map _).Nodup
    rw [definitionEntries, List.map_map, List.map_map]
    exact (hPerm.map Prod.snd).nodup_iff.mpr hNames.values
  have hPaths : enumPaths settings registry =
      (registry.definitions.values.map Definition.name).map (EnumUnit.path settings) := by
    rw [List.map_map]
    rfl
  rw [hPaths]
  exact hValues.map_on fun _ _ _ _ hSame => unitPath_inj hSame

/-- What a component schema does to the data classes: nothing, or it adds the class of its name. -/
theorem addComponentDto_cases {dtos dtos' : Dictionary String Value} {entry : Value × Value}
    (h : (addComponentDto dtos entry).outcome = .ok dtos') :
    (describesObject entry.2 = false ∧ dtos' = dtos) ∨
      ∃ text, entry.1 = .str text ∧ describesObject entry.2 = true ∧
        ((dtos.has (dtoClass text) = true ∧ dtos' = dtos) ∨
          (dtos.has (dtoClass text) = false ∧ dtos' = dtos.put (dtoClass text) entry.2)) := by
  obtain ⟨name, schema⟩ := entry
  unfold addComponentDto at h
  dsimp only at h
  split at h
  · rename_i hNoObject
    cases h
    exact Or.inl ⟨by simpa using hNoObject, rfl⟩
  · rename_i hObject
    obtain ⟨text, hText, h⟩ := Journal.exists_of_bind_ok h
    refine Or.inr ⟨text, Value.asText_ok hText, by simpa using hObject, ?_⟩
    split at h
    · rename_i hHas
      cases h
      exact Or.inl ⟨hHas, rfl⟩
    · rename_i hNew
      cases h
      exact Or.inr ⟨Bool.not_eq_true _ ▸ hNew, rfl⟩

/-- What a response does to them: nothing, since it has no class or one that is there, or it adds its
class. -/
theorem addResponseDto_cases {dtos dtos' : Dictionary String Value} {e : Endpoint}
    (h : (addResponseDto dtos e).outcome = .ok dtos') :
    (dtos' = dtos ∧ ∀ name, e.response.bind Response.dto? = some name → dtos.has name = true) ∨
      ∃ response name, e.response = some response ∧ response.dto? = some name ∧
        dtos.has name = false ∧ dtos' = dtos.put name (objectSchema response) := by
  unfold addResponseDto at h
  cases hResponse : e.response with
  | none =>
    rw [hResponse] at h
    cases h
    exact Or.inl ⟨rfl, nofun⟩
  | some response =>
    rw [hResponse] at h
    cases hClass : response.dto? with
    | none =>
      simp only [hClass] at h
      cases h
      refine Or.inl ⟨rfl, fun name hName => ?_⟩
      rw [Option.bind_some, hClass] at hName
      cases hName
    | some className =>
      simp only [hClass] at h
      split at h
      · rename_i hHas
        cases h
        refine Or.inl ⟨rfl, fun name hName => ?_⟩
        rw [Option.bind_some, hClass] at hName
        rwa [← Option.some.inj hName]
      · rename_i hNew
        cases h
        exact Or.inr ⟨response, className, rfl, hClass, Bool.not_eq_true _ ▸ hNew, rfl⟩

theorem addComponentDto_distinct {dtos dtos' : Dictionary String Value} {entry : Value × Value}
    (hDistinct : dtos.Distinct) (h : (addComponentDto dtos entry).outcome = .ok dtos') :
    dtos'.Distinct := by
  obtain ⟨-, rfl⟩ | ⟨_, -, -, ⟨-, rfl⟩ | ⟨-, rfl⟩⟩ := addComponentDto_cases h
  · exact hDistinct
  · exact hDistinct
  · exact Dictionary.put_distinct _ _ hDistinct

theorem addResponseDto_distinct {dtos dtos' : Dictionary String Value} {endpoint : Endpoint}
    (hDistinct : dtos.Distinct) (h : (addResponseDto dtos endpoint).outcome = .ok dtos') :
    dtos'.Distinct := by
  obtain ⟨rfl, -⟩ | ⟨_, _, -, -, -, rfl⟩ := addResponseDto_cases h
  · exact hDistinct
  · exact Dictionary.put_distinct _ _ hDistinct

/-- The data classes of a specification have different names. -/
theorem dtosOf_distinct {s : Specification} {dtos : Dictionary String Value}
    (h : (dtosOf s).outcome = .ok dtos) : dtos.Distinct := by
  unfold dtosOf at h
  obtain ⟨components, hComponents, h⟩ := Journal.exists_of_bind_ok h
  obtain ⟨all, hAll, h⟩ := Journal.exists_of_bind_ok h
  cases h
  rw [Journal.outcome_foldlM] at hComponents hAll
  have hFirst : components.Distinct := by
    refine foldlM_ok_induction Dictionary.Distinct List.Pairwise.nil ?_ hComponents
    intro dtos entry dtos' _ hDistinct hStep
    exact addComponentDto_distinct hDistinct hStep
  have hLast : all.Distinct := by
    refine foldlM_ok_induction Dictionary.Distinct hFirst ?_ hAll
    intro dtos endpoint dtos' _ hDistinct hStep
    exact addResponseDto_distinct hDistinct hStep
  -- sorting by name keeps the names apart
  rw [Dictionary.distinct_iff_nodup] at hLast ⊢
  exact ((List.mergeSort_perm all _).map Prod.fst).nodup_iff.mpr hLast

theorem dtoPaths_nodup (settings : Settings) {dtos : Dictionary String Value}
    (hDistinct : dtos.Distinct) : (dtoPaths settings dtos).Nodup :=
  (Dictionary.distinct_iff_nodup.mp hDistinct).map_on fun _ _ _ _ hSame => unitPath_inj hSame

-- ---------------------------------------------------------------------------
-- Between kinds
-- ---------------------------------------------------------------------------

/-- The paths of all units. -/
def unitPaths (settings : Settings) (members : List (Endpoint × ResolvedName)) (registry : Registry)
    (dtos : Dictionary String Value) : List String :=
  requestPaths settings members ++ resourcePaths settings members ++ enumPaths settings registry ++
    dtoPaths settings dtos

/-- All paths are in a folder. -/
def InFolder (folder : String) (paths : List String) : Prop :=
  ∀ path ∈ paths, ∃ rest, path = folder ++ "/" ++ rest

/-- Paths in different folders are different. -/
theorem disjoint_of_folders {f g : String} {paths paths' : List String} (hf : Plain f) (hg : Plain g)
    (hDiffer : f ≠ g) (hPaths : InFolder f paths) (hPaths' : InFolder g paths') :
    ∀ p ∈ paths, ∀ q ∈ paths', p ≠ q := by
  intro p hp q hq hSame
  obtain ⟨rest, rfl⟩ := hPaths p hp
  obtain ⟨rest', rfl⟩ := hPaths' q hq
  exact hDiffer (folder_inj hf hg hSame).1

variable {settings : Settings} {members : List (Endpoint × ResolvedName)} {registry : Registry}
  {dtos : Dictionary String Value}

theorem requestPaths_folder : InFolder settings.requestFolder (requestPaths settings members) := by
  intro path hPath
  obtain ⟨m, -, rfl⟩ := List.mem_map.mp hPath
  exact ⟨_, unitPath_folders _ _ _⟩

theorem resourcePaths_folder : InFolder settings.resourceFolder (resourcePaths settings members) := by
  intro path hPath
  obtain ⟨resource, -, rfl⟩ := List.mem_map.mp hPath
  exact ⟨_, unitPath_folder _ _⟩

theorem enumPaths_folder : InFolder settings.enumFolder (enumPaths settings registry) := by
  intro path hPath
  obtain ⟨d, -, rfl⟩ := List.mem_map.mp hPath
  exact ⟨_, unitPath_folder _ _⟩

theorem dtoPaths_folder : InFolder settings.dtoFolder (dtoPaths settings dtos) := by
  intro path hPath
  obtain ⟨name, -, rfl⟩ := List.mem_map.mp hPath
  exact ⟨_, unitPath_folder _ _⟩

/-- No two units have the same path if none of the same kind do. -/
theorem unitPaths_nodup (hFolders : FoldersApart settings)
    (hRequests : (requestPaths settings members).Nodup) (hEnums : (enumPaths settings registry).Nodup)
    (hDtos : (dtoPaths settings dtos).Nodup) :
    (unitPaths settings members registry dtos).Nodup := by
  obtain ⟨hNodup, hPlain⟩ := hFolders
  simp only [folders, List.nodup_cons, List.mem_cons, List.not_mem_nil, or_false, not_or] at hNodup
  simp only [folders, List.forall_mem_cons] at hPlain
  obtain ⟨⟨hReqRes, hReqEnum, hReqDto⟩, ⟨hResEnum, hResDto⟩, hEnumDto, -⟩ := hNodup
  obtain ⟨hReq, hRes, hEnum, hDto, -⟩ := hPlain
  unfold unitPaths
  rw [List.nodup_append, List.nodup_append, List.nodup_append]
  refine ⟨⟨⟨hRequests, resourcePaths_nodup settings members, ?_⟩, hEnums, ?_⟩, hDtos, ?_⟩
  · exact disjoint_of_folders hReq hRes hReqRes requestPaths_folder resourcePaths_folder
  · intro p hp
    rcases List.mem_append.mp hp with hp | hp
    · exact disjoint_of_folders hReq hEnum hReqEnum requestPaths_folder enumPaths_folder p hp
    · exact disjoint_of_folders hRes hEnum hResEnum resourcePaths_folder enumPaths_folder p hp
  · intro p hp
    rcases List.mem_append.mp hp with hp | hp
    · rcases List.mem_append.mp hp with hp | hp
      · exact disjoint_of_folders hReq hDto hReqDto requestPaths_folder dtoPaths_folder p hp
      · exact disjoint_of_folders hRes hDto hResDto resourcePaths_folder dtoPaths_folder p hp
    · exact disjoint_of_folders hEnum hDto hEnumDto enumPaths_folder dtoPaths_folder p hp

end ClientGen.Unit
