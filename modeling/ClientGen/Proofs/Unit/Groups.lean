import ClientGen.Proofs.Dictionary
import ClientGen.Proofs.Outcome
import ClientGen.Unit.All
import Mathlib.Data.List.Induction

/-!
# Groups of endpoints

The endpoints of a specification are put into the groups of their resources one
after the other. A resource has a group exactly if it has an endpoint, and its
group is the list of its endpoints, in their order.

Main results:

* `Grouped.step` / `groups_grouped` — one endpoint and all endpoints.
* `mem_groups_iff` — the groups of a list of endpoints.
-/

namespace ClientGen.Unit

open ClientGen.Api ClientGen.Naming

/-- The endpoints with their names are those of the specification. -/
theorem namedEndpoints_mem {s : Specification} {names : Dictionary String ResolvedName}
    {members : List (Endpoint × ResolvedName)} (h : namedEndpoints s names = .ok members) :
    ∀ m ∈ members, m.1 ∈ s.endpoints ∧ names.get? m.1.key = some m.2 := by
  intro m hm
  obtain ⟨e, he, hStep⟩ := exists_of_mem_mapM h m hm
  split at hStep
  · rename_i resolved hResolved
    cases hStep
    exact ⟨he, hResolved⟩
  · cases hStep

/-- They come in the order of the specification, each once. -/
theorem namedEndpoints_map_fst {s : Specification} {names : Dictionary String ResolvedName}
    {members : List (Endpoint × ResolvedName)} (h : namedEndpoints s names = .ok members) :
    members.map Prod.fst = s.endpoints := by
  have hSame : members.map Prod.fst = s.endpoints.map id := by
    refine map_eq_of_mapM_ok h ?_
    intro e _ m hm
    split at hm
    · cases hm
      rfl
    · cases hm
  rw [hSame, List.map_id]

/-- The endpoints among `done` that belong to a resource. -/
def ofResource (done : List (Endpoint × ResolvedName)) (resource : String) :
    List (Endpoint × ResolvedName) :=
  done.filter fun m => m.2.resourceClass == resource

/-- The groups hold the endpoints in `done`. -/
structure Grouped (done : List (Endpoint × ResolvedName)) (groups : Groups) : Prop where
  distinct : groups.Distinct
  members  : ∀ resource, (groups.get? resource).getD [] = ofResource done resource
  keys     : ∀ resource ∈ groups.keys, ofResource done resource ≠ []

theorem grouped_start : Grouped [] [] :=
  ⟨List.Pairwise.nil, fun _ => rfl, by simp [Dictionary.keys]⟩

theorem ofResource_snoc_of_eq {done : List (Endpoint × ResolvedName)} {m : Endpoint × ResolvedName}
    {resource : String} (h : m.2.resourceClass = resource) :
    ofResource (done ++ [m]) resource = ofResource done resource ++ [m] := by
  rw [ofResource, List.filter_append]
  simp [h, ofResource]

theorem ofResource_snoc_of_ne {done : List (Endpoint × ResolvedName)} {m : Endpoint × ResolvedName}
    {resource : String} (h : m.2.resourceClass ≠ resource) :
    ofResource (done ++ [m]) resource = ofResource done resource := by
  rw [ofResource, List.filter_append]
  simp [h, ofResource]

/-- **Step.** A further endpoint joins the group of its resource. -/
theorem Grouped.step {done : List (Endpoint × ResolvedName)} {groups : Groups}
    (h : Grouped done groups) (m : Endpoint × ResolvedName) :
    Grouped (done ++ [m]) (addMember groups m) := by
  have hJoined : addMember groups m =
      groups.put m.2.resourceClass (ofResource done m.2.resourceClass ++ [m]) := by
    rw [← h.members]
    rfl
  rw [hJoined]
  refine ⟨Dictionary.put_distinct _ _ h.distinct, ?_, ?_⟩
  · intro resource
    by_cases hSame : m.2.resourceClass = resource
    · subst hSame
      rw [Dictionary.get?_put_self, ofResource_snoc_of_eq rfl, Option.getD_some]
    · rw [Dictionary.get?_put_of_ne hSame, ofResource_snoc_of_ne hSame, h.members]
  · intro resource hMem
    by_cases hSame : m.2.resourceClass = resource
    · rw [ofResource_snoc_of_eq hSame]
      simp
    · rw [ofResource_snoc_of_ne hSame]
      refine h.keys resource ?_
      rw [Dictionary.mem_keys_iff] at hMem ⊢
      rwa [Dictionary.get?_put_of_ne hSame] at hMem

/-- **Run.** The groups of a list of endpoints hold these endpoints. -/
theorem groups_grouped (members : List (Endpoint × ResolvedName)) :
    Grouped members (members.foldl addMember []) := by
  induction members using List.reverseRecOn with
  | nil => exact grouped_start
  | append_singleton done m ih =>
    rw [List.foldl_append]
    exact ih.step m

/-- A resource has a group exactly if it has an endpoint, and this is its group. -/
theorem mem_groups_iff {members group : List (Endpoint × ResolvedName)} {resource : String} :
    (resource, group) ∈ (members.foldl addMember [] : Groups) ↔
      group = ofResource members resource ∧ group ≠ [] := by
  have hGrouped := groups_grouped members
  rw [← Dictionary.get?_eq_some_iff hGrouped.distinct]
  constructor
  · intro h
    have hKey := hGrouped.keys resource (Dictionary.mem_keys_iff.mpr ⟨group, h⟩)
    have hGroup := hGrouped.members resource
    rw [h, Option.getD_some] at hGroup
    exact ⟨hGroup, hGroup ▸ hKey⟩
  · rintro ⟨rfl, hSome⟩
    rw [← hGrouped.members resource] at hSome ⊢
    cases hGet : Dictionary.get? (members.foldl addMember [] : Groups) resource with
    | none =>
      rw [hGet] at hSome
      exact absurd rfl hSome
    | some group => rfl

end ClientGen.Unit
