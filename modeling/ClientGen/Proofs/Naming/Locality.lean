import ClientGen.Proofs.Naming.Collisions

/-!
# Resolution is local

What an endpoint is called depends on the endpoints before it that share its resource,
and on no others. So the endpoints of a resource can be resolved alone, whatever stands
between them, and endpoints that come later change no name. Both compare two runs: a
step for an endpoint of the resource is taken by both of them alike, and a step for
another endpoint by the longer run only.

Endpoints share a resource if the classes of their collections have the same name,
however the collections are spelled.

Main results:

* `Alone.next_own` / `Alone.next_other` — the two kinds of steps.
* `resolve_alone` — a resource resolved alone.
* `resolve_local` — both statements, of whole runs.
-/

namespace ClientGen.Naming

open ClientGen.Api ClientGen.Document

variable {settings : Settings} {group : String} {done : List Endpoint} {r own : Resolution}

/-- The endpoints of a resource. -/
def ofGroup (settings : Settings) (group : String) (endpoints : List Endpoint) : List Endpoint :=
  endpoints.filter fun e => groupOf settings e == group

theorem ofGroup_snoc_of_eq {e : Endpoint} (h : groupOf settings e = group) :
    ofGroup settings group (done ++ [e]) = ofGroup settings group done ++ [e] := by
  rw [ofGroup, List.filter_append]
  simp [h, ofGroup]

theorem ofGroup_snoc_of_ne {e : Endpoint} (h : groupOf settings e ≠ group) :
    ofGroup settings group (done ++ [e]) = ofGroup settings group done := by
  rw [ofGroup, List.filter_append]
  simp [h, ofGroup]

theorem nodup_keys_ofGroup {endpoints : List Endpoint} (h : (endpoints.map Endpoint.key).Nodup) :
    ((ofGroup settings group endpoints).map Endpoint.key).Nodup :=
  h.sublist (List.filter_sublist.map Endpoint.key)

/-- An endpoint chooses among others as it does among those of its resource. -/
theorem choiceAfter_ofGroup {e : Endpoint} (h : groupOf settings e = group) :
    choiceAfter settings (ofGroup settings group done) e = choiceAfter settings done e := by
  unfold choiceAfter claimsAfter ofGroup
  rw [h, List.filter_filter]
  simp only [Bool.and_self]

-- ---------------------------------------------------------------------------
-- Steps
-- ---------------------------------------------------------------------------

/-- The second result is the part of the first one that belongs to the resource: its names and its
renamings, both in order. -/
structure Alone (group : String) (r own : Resolution) : Prop where
  names      : own.names = r.names.filter fun entry => entry.2.resourceClass == group
  collisions : own.collisions = r.collisions.filter fun c => c.resource == group

theorem renaming?_resource {e : Endpoint} {n : ResolvedName} {c : Collision}
    (h : c ∈ renaming? e n) : c.resource = n.resourceClass := by
  unfold renaming? at h
  split at h
  · cases h
  · cases h
    rfl

/-- An endpoint with a new key is entered after the others. -/
theorem Tracks.names_snoc (hTracks : Tracks settings done r) {e : Endpoint}
    (hNew : e.key ∉ done.map Endpoint.key) (arguments : Arguments) :
    (r.next settings e arguments).names =
      r.names ++ [(e.key, nameWith settings e (choiceAfter settings done e).1 arguments)] := by
  rw [hTracks.claims.next_names, Dictionary.put_of_not_mem _ (hTracks.keys ▸ hNew)]

section Steps

variable (hTracks : Tracks settings done r) (hAlone : Alone group r own) {e : Endpoint}
  (hNew : e.key ∉ done.map Endpoint.key) (arguments : Arguments)
include hTracks hAlone hNew

/-- **Step of the resource.** Both runs find the same name, and record the same renaming. -/
theorem Alone.next_own (hOwn : Tracks settings (ofGroup settings group done) own)
    (hGroup : groupOf settings e = group) :
    Alone group (r.next settings e arguments) (own.next settings e arguments) := by
  have hNewOwn : e.key ∉ (ofGroup settings group done).map Endpoint.key := fun hMem =>
    hNew ((List.filter_sublist.map _).subset hMem)
  constructor
  · rw [hTracks.names_snoc hNew, hOwn.names_snoc hNewOwn, choiceAfter_ofGroup hGroup,
      List.filter_append, hAlone.names]
    simp [hGroup]
  · rw [hTracks.claims.next_collisions, hOwn.claims.next_collisions, choiceAfter_ofGroup hGroup,
      List.filter_append, hAlone.collisions]
    refine congrArg _ (List.filter_eq_self.mpr ?_).symm
    intro c hc
    rw [renaming?_resource (Option.mem_toList.mp hc), nameWith_resourceClass, hGroup, beq_self_eq_true]

/-- **Step of another resource.** What the longer run adds is left out. -/
theorem Alone.next_other (hGroup : groupOf settings e ≠ group) :
    Alone group (r.next settings e arguments) own := by
  constructor
  · rw [hTracks.names_snoc hNew, List.filter_append, hAlone.names]
    simp [hGroup]
  · rw [hTracks.claims.next_collisions, List.filter_append, hAlone.collisions]
    refine (List.append_right_eq_self.mpr (List.filter_eq_nil_iff.mpr ?_)).symm
    intro c hc
    rw [renaming?_resource (Option.mem_toList.mp hc), nameWith_resourceClass, beq_iff_eq]
    exact hGroup

end Steps

-- ---------------------------------------------------------------------------
-- Runs
-- ---------------------------------------------------------------------------

/-- A run takes one more step if there are argument names for it. -/
theorem resolve_snoc_ok {e : Endpoint} {arguments : Arguments}
    (h : (resolve settings done).outcome = .ok r) (hArguments : argumentsOf settings e = .ok arguments) :
    (resolve settings (done ++ [e])).outcome = .ok (r.next settings e arguments) := by
  unfold resolve at h ⊢
  rw [Journal.outcome_foldlM] at h ⊢
  rw [List.foldlM_append, h, ok_bind, List.foldlM_cons, Resolution.add_outcome, hArguments]
  rfl

/-- **A resource alone.** If endpoints can be resolved, then those of a resource can be resolved
without the others, and this gives them the same names and the same renamings. -/
theorem resolve_alone (hKeys : (done.map Endpoint.key).Nodup)
    (h : (resolve settings done).outcome = .ok r) (group : String) :
    ∃ own, (resolve settings (ofGroup settings group done)).outcome = .ok own ∧ Alone group r own := by
  induction done using List.reverseRecOn generalizing r with
  | nil =>
    cases h
    exact ⟨{}, rfl, rfl, rfl⟩
  | append_singleton done e ih =>
    obtain ⟨hDone, hNew⟩ := nodup_keys_snoc hKeys
    obtain ⟨before, arguments, hBefore, hArguments, rfl⟩ := exists_of_resolve_snoc_ok h
    obtain ⟨own, hOwn, hAlone⟩ := ih hDone hBefore
    have hTracks := resolve_tracks hDone hBefore
    by_cases hGroup : groupOf settings e = group
    · rw [ofGroup_snoc_of_eq hGroup]
      have hOwnTracks := resolve_tracks (nodup_keys_ofGroup hDone) hOwn
      exact ⟨_, resolve_snoc_ok hOwn hArguments,
        hAlone.next_own hTracks hNew arguments hOwnTracks hGroup⟩
    · rw [ofGroup_snoc_of_ne hGroup]
      exact ⟨own, hOwn, hAlone.next_other hTracks hNew arguments hGroup⟩

/-- **Extension.** If endpoints can be resolved, then the first ones of them can be resolved
without the later ones, and this gives them the same names and the same renamings. -/
theorem resolve_earlier {later : List Endpoint} (hKeys : ((done ++ later).map Endpoint.key).Nodup)
    (h : (resolve settings (done ++ later)).outcome = .ok r) :
    ∃ earlier, (resolve settings done).outcome = .ok earlier ∧ earlier.names <+: r.names ∧
      earlier.collisions <+: r.collisions := by
  induction later using List.reverseRecOn generalizing r with
  | nil =>
    rw [List.append_nil] at h
    exact ⟨r, h, List.prefix_refl _, List.prefix_refl _⟩
  | append_singleton later e ih =>
    rw [← List.append_assoc] at hKeys h
    obtain ⟨hDone, hNew⟩ := nodup_keys_snoc hKeys
    obtain ⟨before, arguments, hBefore, hArguments, rfl⟩ := exists_of_resolve_snoc_ok h
    obtain ⟨earlier, hEarlier, hNames, hCollisions⟩ := ih hDone hBefore
    have hTracks := resolve_tracks hDone hBefore
    refine ⟨earlier, hEarlier, ?_, ?_⟩
    · rw [hTracks.names_snoc hNew]
      exact hNames.trans (List.prefix_append _ _)
    · rw [hTracks.claims.next_collisions]
      exact hCollisions.trans (List.prefix_append _ _)

/-- The endpoints have names in both results, and the same ones. -/
def Agree (endpoints : List Endpoint) (r r' : Resolution) : Prop :=
  ∀ e ∈ endpoints, ∃ n, r.names.get? e.key = some n ∧ r'.names.get? e.key = some n

/-- Names that are entered among others are found there. -/
theorem Tracks.agree (hOwn : Tracks settings done own) {endpoints : List Endpoint}
    (hTracks : Tracks settings endpoints r) (hKeys : (endpoints.map Endpoint.key).Nodup)
    (hNames : List.Sublist own.names r.names) : Agree done own r := by
  have hDistinct : r.names.Distinct := Dictionary.distinct_iff_nodup.mpr (hTracks.keys ▸ hKeys)
  intro e he
  have hKey : e.key ∈ own.names.keys := hOwn.keys ▸ List.mem_map_of_mem he
  obtain ⟨n, hEntry⟩ := Dictionary.mem_keys_iff.mp hKey
  refine ⟨n, hEntry, (Dictionary.get?_eq_some_iff hDistinct).mpr (hNames.subset ?_)⟩
  exact (Dictionary.get?_eq_some_iff (hDistinct.sublist hNames)).mp hEntry

/--
**Resolution is local to a resource and stable under extension.** For endpoints with
distinct keys and under all settings, whenever names are found for them: those of any
resource, however they are interleaved with others, can be resolved alone, and the first
ones can be resolved before the others are there. Either way they have the names that they have among
all, and the renamings are those that are recorded for the resource among all, or those
recorded first, in order. Names are found when the parameters have texts as names.
-/
theorem resolve_local (settings : Settings) {endpoints : List Endpoint}
    (hKeys : (endpoints.map Endpoint.key).Nodup) :
    (∀ r, (resolve settings endpoints).outcome = .ok r →
      (∀ group, ∃ own, (resolve settings (ofGroup settings group endpoints)).outcome = .ok own ∧
        Agree (ofGroup settings group endpoints) own r ∧ Alone group r own) ∧
      ∀ xs ys, endpoints = xs ++ ys → ∃ earlier, (resolve settings xs).outcome = .ok earlier ∧
        Agree xs earlier r ∧ earlier.names <+: r.names ∧ earlier.collisions <+: r.collisions) ∧
    ((∀ e ∈ endpoints, ∀ slot, ∀ p ∈ e.parameters slot, p.name.isText = true) →
      ∃ r, (resolve settings endpoints).outcome = .ok r) := by
  refine ⟨fun r hRun => ⟨fun group => ?_, ?_⟩, exists_resolve_ok⟩
  · obtain ⟨own, hOwn, hAlone⟩ := resolve_alone hKeys hRun group
    have hOwnTracks := resolve_tracks (nodup_keys_ofGroup hKeys) hOwn
    refine ⟨own, hOwn, hOwnTracks.agree (resolve_tracks hKeys hRun) hKeys ?_, hAlone⟩
    rw [hAlone.names]
    exact List.filter_sublist
  · rintro xs ys rfl
    obtain ⟨earlier, hEarlier, hNames, hCollisions⟩ := resolve_earlier hKeys hRun
    have hFirst := hKeys.sublist ((List.sublist_append_left xs ys).map Endpoint.key)
    exact ⟨earlier, hEarlier, (resolve_tracks hFirst hEarlier).agree (resolve_tracks hKeys hRun) hKeys
      hNames.sublist, hNames, hCollisions⟩

/-- Endpoints of two resources in turn. The collections `users` and `Users` are one resource. -/
def interleaved : List Endpoint :=
  [("list", "/a", "users"), ("list", "/b", "orders"), ("list", "/c", "Users"), ("list", "/d", "orders"),
    ("listRequest", "/e", "users")].map
    fun (name, path, collection) => { name, path, method := .get, segments := [], collection }

/-- The names of methods that are found for endpoints. -/
def methodNames (r : Resolution) : List String := r.names.map fun entry => entry.2.methodName

/-- The endpoints of a resource, and the first ones of all, have their names without the others. -/
theorem resolve_interleaved :
    ∃ r own earlier, (resolve {} interleaved).outcome = .ok r ∧
      methodNames r = ["list", "list", "listDuplicate1", "listDuplicate1", "listRequestDuplicate2"] ∧
      (resolve {} (ofGroup {} "Users" interleaved)).outcome = .ok own ∧ Alone "Users" r own ∧
      methodNames own = ["list", "listDuplicate1", "listRequestDuplicate2"] ∧
      (resolve {} (interleaved.take 3)).outcome = .ok earlier ∧ Agree (interleaved.take 3) earlier r := by
  have hLocal := resolve_local {} (show (interleaved.map Endpoint.key).Nodup by decide)
  obtain ⟨r, hRun⟩ := hLocal.2 (by
    intro e he slot p hp
    simp only [interleaved, List.map_cons, List.map_nil, List.mem_cons, List.not_mem_nil, or_false] at he
    rcases he with rfl | rfl | rfl | rfl | rfl <;> cases slot <;> cases hp)
  obtain ⟨hGroups, hFirst⟩ := hLocal.1 r hRun
  obtain ⟨own, hOwn, -, hAlone⟩ := hGroups "Users"
  obtain ⟨earlier, hEarlier, hAgree, -⟩ := hFirst _ _ (List.take_append_drop 3 interleaved).symm
  have hNames : (resolve {} interleaved).outcome.toOption.map methodNames =
      some ["list", "list", "listDuplicate1", "listDuplicate1", "listRequestDuplicate2"] := by
    decide +kernel
  have hOwnNames : (resolve {} (ofGroup {} "Users" interleaved)).outcome.toOption.map methodNames =
      some ["list", "listDuplicate1", "listRequestDuplicate2"] := by
    decide +kernel
  rw [hRun] at hNames
  rw [hOwn] at hOwnNames
  exact ⟨r, own, earlier, hRun, Option.some.inj hNames, hOwn, hAlone, Option.some.inj hOwnNames,
    hEarlier, hAgree⟩

end ClientGen.Naming
