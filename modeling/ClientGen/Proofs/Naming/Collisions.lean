import ClientGen.Proofs.Naming.Resolution

/-!
# What resolution promises

The names of endpoints as a client of the resolution sees them: which endpoints
keep their names, what the others are called, and what is recorded of it. The
statements speak of the result alone. A name is *held* before an endpoint if an
earlier endpoint of the resource ended up with it or with its request class, and
a number is *handed out* if an earlier endpoint was renamed with it.

Main result: `resolve_collisionFree`.
-/

namespace ClientGen.Naming

open ClientGen.Api ClientGen.Document

variable {settings : Settings} {endpoints before : List Endpoint} {r : Resolution}

/-- One of the endpoints belongs to the resource and has the method name, or a
name with the same request class. -/
def Resolution.Held (r : Resolution) (before : List Endpoint) (group name : String) : Prop :=
  ∃ d ∈ before, ∃ m, r.names.get? d.key = some m ∧ m.resourceClass = group ∧
    (m.methodName = name ∨ m.requestClass = requestClass name)

/-- One of the endpoints belongs to the resource and was renamed with the number. -/
def Resolution.HandedOut (r : Resolution) (before : List Endpoint) (group : String) (i : Nat) : Prop :=
  ∃ d ∈ before, ∃ m, r.names.get? d.key = some m ∧ m.resourceClass = group ∧
    m.methodName = Claims.duplicate (methodName d.name) i

/-- The names of endpoints do not collide, and no name is changed without need. -/
structure CollisionFree (settings : Settings) (endpoints : List Endpoint) (r : Resolution) : Prop where
  /-- there is one entry for each endpoint, in their order -/
  keys : r.names.keys = endpoints.map Endpoint.key
  /-- an endpoint is named within the resource of its collection, and its old name is kept exactly
  if it was renamed -/
  named : ∀ e ∈ endpoints, ∃ n, r.names.get? e.key = some n ∧ n.resourceClass = groupOf settings e ∧
    n.requestClass = requestClass n.methodName ∧
    n.renamedFrom = if n.methodName = methodName e.name then none else some (methodName e.name)
  /-- two endpoints of a resource have different methods and different request classes -/
  apart : ∀ e ∈ endpoints, ∀ f ∈ endpoints, e.key ≠ f.key → ∀ m n, r.names.get? e.key = some m →
    r.names.get? f.key = some n → m.resourceClass = n.resourceClass →
    m.methodName ≠ n.methodName ∧ m.requestClass ≠ n.requestClass
  /-- an endpoint keeps its name exactly if the name is not held by an earlier one -/
  kept : ∀ before e n, before ++ [e] <+: endpoints → r.names.get? e.key = some n →
    (n.methodName = methodName e.name ↔ ¬ r.Held before n.resourceClass (methodName e.name))
  /-- otherwise it is a duplicate with a number that is larger than all numbers before it, and the
  first such number whose duplicate is not held -/
  numbered : ∀ before e n, before ++ [e] <+: endpoints → r.names.get? e.key = some n →
    n.methodName ≠ methodName e.name →
    ∃ k, 1 ≤ k ∧ n.methodName = Claims.duplicate (methodName e.name) k ∧
      (∀ i, r.HandedOut before n.resourceClass i → i < k) ∧
      ∀ j, 1 ≤ j → j < k → (∀ i, r.HandedOut before n.resourceClass i → i < j) →
        r.Held before n.resourceClass (Claims.duplicate (methodName e.name) j)
  /-- the renamings are recorded in the order of the endpoints, each once -/
  collisions : r.collisions = endpoints.filterMap fun e => (r.names.get? e.key).bind (renaming? e)

-- ---------------------------------------------------------------------------
-- From the claims to the result
-- ---------------------------------------------------------------------------

/-- An item of a list comes right after some of the others. -/
private theorem exists_prefix_of_mem {α : Type} {xs : List α} {x : α} (h : x ∈ xs) :
    ∃ before, before ++ [x] <+: xs := by
  obtain ⟨before, after, rfl⟩ := List.append_of_mem h
  exact ⟨before, after, by simp⟩

/-- The entry of an endpoint is the one chosen for it after the endpoints before it. -/
theorem Tracks.entry {e : Endpoint} {n : ResolvedName} (hTracks : Tracks settings endpoints r)
    (hPrefix : before ++ [e] <+: endpoints) (h : r.names.get? e.key = some n) :
    n.resourceClass = groupOf settings e ∧ n.methodName = (choiceAfter settings before e).1 ∧
      n.requestClass = requestClass n.methodName := by
  obtain ⟨arguments, -, hEntry⟩ := hTracks.names before e hPrefix
  obtain rfl := Option.some.inj (hEntry.symm.trans h)
  simp only [nameWith_resourceClass, nameWith_methodName, nameWith_requestClass, and_self]

theorem Tracks.held_iff {group name : String} (hTracks : Tracks settings endpoints r)
    (hBefore : before <+: endpoints) :
    r.Held before group name ↔ (claimsAfter settings group before).taken name = true := by
  rw [taken_claimsAfter_iff]
  constructor
  · rintro ⟨d, hd, m, hEntry, hGroup, hName⟩
    obtain ⟨earlier, hPrefix⟩ := exists_prefix_of_mem hd
    obtain ⟨hResource, hMethod, hClass⟩ := hTracks.entry (hPrefix.trans hBefore) hEntry
    rw [hClass, hMethod] at hName
    exact ⟨earlier, d, hPrefix, hResource.symm.trans hGroup, hName⟩
  · rintro ⟨earlier, d, hPrefix, hGroup, hName⟩
    obtain ⟨arguments, -, hEntry⟩ := hTracks.names earlier d (hPrefix.trans hBefore)
    have hd : d ∈ before := hPrefix.subset (List.mem_append_right _ List.mem_cons_self)
    refine ⟨d, hd, _, hEntry, ?_, ?_⟩
    · rw [nameWith_resourceClass, hGroup]
    · rwa [nameWith_methodName, nameWith_requestClass]

theorem Tracks.handedOut_iff {group : String} {i : Nat} (hTracks : Tracks settings endpoints r)
    (hBefore : before <+: endpoints) :
    r.HandedOut before group i ↔ ∃ earlier d, earlier ++ [d] <+: before ∧
      groupOf settings d = group ∧
      (choiceAfter settings earlier d).1 = Claims.duplicate (methodName d.name) i := by
  constructor
  · rintro ⟨d, hd, m, hEntry, hGroup, hName⟩
    obtain ⟨earlier, hPrefix⟩ := exists_prefix_of_mem hd
    obtain ⟨hResource, hMethod, -⟩ := hTracks.entry (hPrefix.trans hBefore) hEntry
    exact ⟨earlier, d, hPrefix, hResource.symm.trans hGroup, hMethod.symm.trans hName⟩
  · rintro ⟨earlier, d, hPrefix, hGroup, hName⟩
    obtain ⟨arguments, -, hEntry⟩ := hTracks.names earlier d (hPrefix.trans hBefore)
    have hd : d ∈ before := hPrefix.subset (List.mem_append_right _ List.mem_cons_self)
    refine ⟨d, hd, _, hEntry, ?_, ?_⟩
    · rw [nameWith_resourceClass, hGroup]
    · rw [nameWith_methodName, hName]

/-- What an endpoint was given is claimed when a later endpoint of the resource chooses. -/
theorem choice_apart {earlier later : List Endpoint} {e f : Endpoint}
    (hPrefix : earlier ++ [e] <+: later) (hGroup : groupOf settings e = groupOf settings f) :
    (choiceAfter settings earlier e).1 ≠ (choiceAfter settings later f).1 ∧
      requestClass (choiceAfter settings earlier e).1 ≠
        requestClass (choiceAfter settings later f).1 := by
  have hFree : (claimsAfter settings (groupOf settings f) later).taken
      (choiceAfter settings later f).1 = false := Claims.choose_free _ _
  have hNotTaken : ∀ h : (choiceAfter settings earlier e).1 = (choiceAfter settings later f).1 ∨
      requestClass (choiceAfter settings earlier e).1 =
        requestClass (choiceAfter settings later f).1, False := by
    intro h
    rw [taken_claimsAfter_iff.mpr ⟨earlier, e, hPrefix, hGroup, h⟩] at hFree
    cases hFree
  exact ⟨fun h => hNotTaken (Or.inl h), fun h => hNotTaken (Or.inr h)⟩

theorem Tracks.apart {e f : Endpoint} {m n : ResolvedName} (hTracks : Tracks settings endpoints r)
    (he : e ∈ endpoints) (hf : f ∈ endpoints) (hKey : e.key ≠ f.key)
    (hm : r.names.get? e.key = some m) (hn : r.names.get? f.key = some n)
    (hGroup : m.resourceClass = n.resourceClass) :
    m.methodName ≠ n.methodName ∧ m.requestClass ≠ n.requestClass := by
  obtain ⟨beforeE, hE⟩ := exists_prefix_of_mem he
  obtain ⟨beforeF, hF⟩ := exists_prefix_of_mem hf
  obtain ⟨hGroupE, hMethodE, hClassE⟩ := hTracks.entry hE hm
  obtain ⟨hGroupF, hMethodF, hClassF⟩ := hTracks.entry hF hn
  rw [hGroupE, hGroupF] at hGroup
  rw [hClassE, hClassF, hMethodE, hMethodF]
  -- one of the two comes first; it is not the same endpoint twice
  rcases List.prefix_or_prefix_of_prefix hE hF with h | h
  · rcases List.prefix_concat_iff.mp h with hSame | hEarlier
    · cases (List.append_inj' hSame rfl).2
      exact absurd rfl hKey
    · exact choice_apart hEarlier hGroup
  · rcases List.prefix_concat_iff.mp h with hSame | hEarlier
    · cases (List.append_inj' hSame rfl).2
      exact absurd rfl hKey
    · have hApart := choice_apart hEarlier hGroup.symm
      exact ⟨hApart.1.symm, hApart.2.symm⟩

theorem Tracks.numbered {e : Endpoint} {n : ResolvedName} (hTracks : Tracks settings endpoints r)
    (hPrefix : before ++ [e] <+: endpoints) (hEntry : r.names.get? e.key = some n)
    (hRenamed : n.methodName ≠ methodName e.name) :
    ∃ k, 1 ≤ k ∧ n.methodName = Claims.duplicate (methodName e.name) k ∧
      (∀ i, r.HandedOut before n.resourceClass i → i < k) ∧
      ∀ j, 1 ≤ j → j < k → (∀ i, r.HandedOut before n.resourceClass i → i < j) →
        r.Held before n.resourceClass (Claims.duplicate (methodName e.name) j) := by
  have hBefore : before <+: endpoints := (List.prefix_append _ _).trans hPrefix
  obtain ⟨hGroup, hMethod, -⟩ := hTracks.entry hPrefix hEntry
  rw [hGroup]
  have hTaken : (claimsAfter settings (groupOf settings e) before).taken (methodName e.name) =
      true := by
    rw [hMethod] at hRenamed
    by_contra hFree
    exact hRenamed (Claims.choose_eq_base_iff.mpr (by simpa using hFree))
  obtain ⟨k, hChoice, hk⟩ := Claims.choose_of_taken hTaken
  have hLe := hk.le
  refine ⟨k, by omega, ?_, ?_, ?_⟩
  · rw [hMethod, choiceAfter, hChoice]
  · intro i hi
    obtain ⟨earlier, d, hd, hGroupD, hNumber⟩ := (hTracks.handedOut_iff hBefore).mp hi
    have := number_le_counter hd hGroupD hNumber
    omega
  · intro j hj hjk hAll
    rw [hTracks.held_iff hBefore]
    refine hk.before j ?_ hjk
    -- the search starts after the last number, which is among those handed out
    rcases counter_claimsAfter settings (groupOf settings e) before with hZero | hLast
    · omega
    · have := hAll _ ((hTracks.handedOut_iff hBefore).mpr hLast)
      omega

-- ---------------------------------------------------------------------------
-- The main result
-- ---------------------------------------------------------------------------

theorem Tracks.collisionFree (hTracks : Tracks settings endpoints r) :
    CollisionFree settings endpoints r := by
  refine ⟨hTracks.keys, ?_, fun e he f hf => ?_, ?_, ?_, hTracks.collisions⟩
  · intro e he
    obtain ⟨before, hPrefix⟩ := exists_prefix_of_mem he
    obtain ⟨arguments, -, hEntry⟩ := hTracks.names before e hPrefix
    refine ⟨_, hEntry, ?_⟩
    simp only [nameWith_resourceClass, nameWith_methodName, nameWith_requestClass,
      nameWith_renamedFrom, and_self]
  · intro hKey m n
    exact hTracks.apart he hf hKey
  · intro before e n hPrefix hEntry
    obtain ⟨hGroup, hMethod, -⟩ := hTracks.entry hPrefix hEntry
    rw [hTracks.held_iff ((List.prefix_append _ _).trans hPrefix), hMethod, hGroup,
      Bool.not_eq_true]
    exact Claims.choose_eq_base_iff
  · intro before e n
    exact hTracks.numbered

/--
**Resolution is free of collisions.** For endpoints with distinct keys and under
all settings the names that resolution finds are collision free, and it does find
names when the parameters have texts as names, as parameters do.
-/
theorem resolve_collisionFree (settings : Settings) {endpoints : List Endpoint}
    (hKeys : (endpoints.map Endpoint.key).Nodup) :
    (∀ r, (resolve settings endpoints).outcome = .ok r → CollisionFree settings endpoints r) ∧
      ((∀ e ∈ endpoints, ∀ slot, ∀ p ∈ e.parameters slot, p.name.isText = true) →
        ∃ r, (resolve settings endpoints).outcome = .ok r) :=
  ⟨fun _ hRun => (resolve_tracks hKeys hRun).collisionFree, exists_resolve_ok⟩

/-- Endpoints of a collection that compete for one request class. The second one
is given, as its own name, what would be the first duplicate for the last one. -/
def rivals : List Endpoint :=
  [("getUser", "/a"), ("getUserDuplicate1", "/b"), ("getUserRequest", "/c"), ("get_user", "/d")].map
    fun (name, path) => { name, path, method := .get, segments := [], collection := "users" }

/-- Two of the rivals are renamed, with increasing numbers. -/
theorem resolve_rivals : ∃ r, (resolve {} rivals).outcome = .ok r ∧ CollisionFree {} rivals r ∧
    r.names.map (fun entry => entry.2.methodName) =
      ["getUser", "getUserDuplicate1", "getUserRequestDuplicate1", "getUserDuplicate2"] := by
  have hFree := resolve_collisionFree {} (show (rivals.map Endpoint.key).Nodup by decide)
  obtain ⟨r, hRun⟩ := hFree.2 (by
    intro e he slot p hp
    simp only [rivals, List.map_cons, List.map_nil, List.mem_cons, List.not_mem_nil, or_false] at he
    rcases he with rfl | rfl | rfl | rfl <;> cases slot <;> cases hp)
  refine ⟨r, hRun, hFree.1 r hRun, ?_⟩
  have hNames : (resolve {} rivals).outcome.toOption.map
      (fun r => r.names.map fun entry => entry.2.methodName) = some
        ["getUser", "getUserDuplicate1", "getUserRequestDuplicate1", "getUserDuplicate2"] := by
    decide +kernel
  rw [hRun] at hNames
  exact Option.some.inj hNames

end ClientGen.Naming
