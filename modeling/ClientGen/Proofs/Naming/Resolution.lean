import ClientGen.Proofs.Dictionary
import ClientGen.Proofs.Naming.Pascal
import ClientGen.Proofs.Outcome
import Mathlib.Data.List.Induction

/-!
# Resolution is free of collisions

Resolution goes through the endpoints once and keeps, for each resource, the
names claimed so far. What it decides for an endpoint depends on the earlier
endpoints of the same resource only, so the claims of a resource are written
here as a function of them (`claimsAfter`), the run is shown to compute just
that (`Tracks`), and all that is promised of the names is read off one choice.

Main results:

* `Claims.choose_free` — the chosen name and its request class are not claimed.
* `taken_claimsAfter_iff` — what is claimed was given to an earlier endpoint.
* `ClaimsOf.next` / `resolve_claims` — what a step and a run claim, be the keys distinct or not.
* `Tracks.next` / `resolve_tracks` — one step and a whole run of the resolution.
* `exists_resolve_ok` — a run succeeds when the names of parameters are texts.
* `exists_nameWith_of_get?` — what is found under a key, be it repeated or not.
-/

namespace ClientGen.Naming

open ClientGen.Api ClientGen.Document

-- ---------------------------------------------------------------------------
-- One choice
-- ---------------------------------------------------------------------------

namespace Claims

/-- A name that is not claimed is kept. -/
theorem choose_of_not_taken {c : Claims} {base : String} (h : c.taken base = false) :
    c.choose base = (base, c.counter) := by
  rw [choose, h]
  rfl

/-- Each claimed name or class rules out at most one duplicate, because two
duplicates have different names and different request classes. -/
theorem exists_free_duplicate (c : Claims) (base : String) (n : Nat) :
    ∃ k, n ≤ k ∧ k ≤ n + (c.methods.length + c.classes.length) ∧
      c.taken (duplicate base k) = false := by
  let mark : Nat → String ⊕ String := fun k =>
    if duplicate base k ∈ c.methods then .inl (duplicate base k)
    else .inr (requestClass (duplicate base k))
  have hInj : ∀ i j, n ≤ i → n ≤ j → mark i = mark j → i = j := by
    intro i j _ _ hij
    simp only [mark] at hij
    split at hij <;> split at hij
    · exact duplicate_inj (Sum.inl.inj hij)
    · cases hij
    · cases hij
    · exact requestClass_duplicate_inj (Sum.inr.inj hij)
  have hMark : ∀ k, n ≤ k → c.taken (duplicate base k) = true →
      mark k ∈ c.methods.map Sum.inl ++ c.classes.map Sum.inr := by
    intro k _ hTaken
    simp only [taken, Bool.or_eq_true, List.contains_iff_mem] at hTaken
    simp only [mark]
    split
    · rename_i hMethod
      exact List.mem_append_left _ (List.mem_map_of_mem hMethod)
    · rename_i hMethod
      exact List.mem_append_right _ (List.mem_map_of_mem (hTaken.resolve_left hMethod))
  obtain ⟨k, hk, hk', hFree⟩ := exists_free hInj hMark
  refine ⟨k, hk, ?_, hFree⟩
  simpa only [List.length_append, List.length_map] using hk'

/-- For a claimed name the search for a number stops where it would stop
without a bound: at the first number after the last one whose duplicate is free. -/
theorem choose_of_taken {c : Claims} {base : String} (h : c.taken base = true) :
    ∃ k, c.choose base = (duplicate base k, k) ∧
      IsFirstFree c.taken (duplicate base) (c.counter + 1) k := by
  rw [choose, h]
  exact ⟨_, rfl, firstFree_isFirstFree (exists_free_duplicate c base (c.counter + 1))⟩

/-- What is chosen is not claimed, neither as a method nor by its request class. -/
theorem choose_free (c : Claims) (base : String) : c.taken (c.choose base).1 = false := by
  cases h : c.taken base with
  | false => rwa [choose_of_not_taken h]
  | true =>
    obtain ⟨k, hChoice, hk⟩ := choose_of_taken h
    rw [hChoice]
    exact hk.free

/-- The name stays as it is exactly when it is not claimed. -/
theorem choose_eq_base_iff {c : Claims} {base : String} :
    (c.choose base).1 = base ↔ c.taken base = false := by
  constructor
  · intro h
    have hFree := choose_free c base
    rwa [h] at hFree
  · intro h
    rw [choose_of_not_taken h]

/-- A number that was handed out is the new last number and larger than the old one. -/
theorem choose_number {c : Claims} {base : String} {i : Nat}
    (h : (c.choose base).1 = duplicate base i) : (c.choose base).2 = i ∧ c.counter < i := by
  cases hTaken : c.taken base with
  | false =>
    rw [choose_of_not_taken hTaken] at h
    exact absurd h.symm (duplicate_ne_self base i)
  | true =>
    obtain ⟨k, hChoice, hk⟩ := choose_of_taken hTaken
    rw [hChoice] at h ⊢
    have hki : k = i := duplicate_inj h
    have := hk.le
    exact ⟨hki, by omega⟩

theorem counter_le_choose (c : Claims) (base : String) : c.counter ≤ (c.choose base).2 := by
  cases h : c.taken base with
  | false =>
    have hSame : (c.choose base).2 = c.counter := congrArg Prod.snd (choose_of_not_taken h)
    exact Nat.le_of_eq hSame.symm
  | true =>
    obtain ⟨k, hChoice, hk⟩ := choose_of_taken h
    have := hk.le
    rw [hChoice]
    show c.counter ≤ k
    omega

/-- The claims of a resource after a further endpoint of it. -/
def next (c : Claims) (e : Endpoint) : Claims := c.claim (c.choose (methodName e.name))

theorem taken_next_iff {c : Claims} {e : Endpoint} {name : String} :
    (c.next e).taken name = true ↔ c.taken name = true ∨
      ((c.choose (methodName e.name)).1 = name ∨
        requestClass (c.choose (methodName e.name)).1 = requestClass name) := by
  simp only [taken, next, claim, List.contains_cons, Bool.or_eq_true, beq_iff_eq]
  grind

end Claims

-- ---------------------------------------------------------------------------
-- The claims of a resource
-- ---------------------------------------------------------------------------

/-- The resource that an endpoint belongs to. -/
def groupOf (settings : Settings) (e : Endpoint) : String :=
  resourceClass (if e.collection = "" then settings.fallbackResource else e.collection)

/-- The claims of a resource after some endpoints. Only those of the resource count. -/
def claimsAfter (settings : Settings) (group : String) (done : List Endpoint) : Claims :=
  (done.filter fun e => groupOf settings e == group).foldl Claims.next {}

/-- What is chosen for an endpoint that comes after some others. -/
def choiceAfter (settings : Settings) (done : List Endpoint) (e : Endpoint) : String × Nat :=
  (claimsAfter settings (groupOf settings e) done).choose (methodName e.name)

variable {settings : Settings}

theorem claimsAfter_snoc_of_eq {done : List Endpoint} {e : Endpoint} {group : String}
    (h : groupOf settings e = group) :
    claimsAfter settings group (done ++ [e]) = (claimsAfter settings group done).next e := by
  rw [claimsAfter, List.filter_append, List.foldl_append]
  simp [h, claimsAfter]

theorem claimsAfter_snoc_of_ne {done : List Endpoint} {e : Endpoint} {group : String}
    (h : groupOf settings e ≠ group) :
    claimsAfter settings group (done ++ [e]) = claimsAfter settings group done := by
  rw [claimsAfter, List.filter_append]
  simp [h, claimsAfter]

/-- The endpoints of a list, each with those before it, are those of the list
without its last one and this last one. -/
theorem exists_prefix_snoc_iff {done : List Endpoint} {e : Endpoint}
    {P : List Endpoint → Endpoint → Prop} :
    (∃ before x, before ++ [x] <+: done ++ [e] ∧ P before x) ↔
      (∃ before x, before ++ [x] <+: done ∧ P before x) ∨ P done e := by
  constructor
  · rintro ⟨before, x, hPrefix, hP⟩
    rcases List.prefix_concat_iff.mp hPrefix with hLast | hEarlier
    · obtain ⟨rfl, hx⟩ := List.append_inj' hLast rfl
      cases hx
      exact Or.inr hP
    · exact Or.inl ⟨before, x, hEarlier, hP⟩
  · rintro (⟨before, x, hPrefix, hP⟩ | hP)
    · exact ⟨before, x, hPrefix.trans (List.prefix_append _ _), hP⟩
    · exact ⟨done, e, List.prefix_refl _, hP⟩

/-- A name is claimed, as a method or by its class, exactly if some earlier
endpoint of the resource was given it or a name with the same class. -/
theorem taken_claimsAfter_iff {group name : String} {done : List Endpoint} :
    (claimsAfter settings group done).taken name = true ↔
      ∃ before e, before ++ [e] <+: done ∧ groupOf settings e = group ∧
        ((choiceAfter settings before e).1 = name ∨
          requestClass (choiceAfter settings before e).1 = requestClass name) := by
  induction done using List.reverseRecOn with
  | nil => simp [claimsAfter, Claims.taken, List.prefix_nil]
  | append_singleton done e ih =>
    rw [exists_prefix_snoc_iff, ← ih]
    by_cases hGroup : groupOf settings e = group
    · rw [claimsAfter_snoc_of_eq hGroup, Claims.taken_next_iff, choiceAfter, hGroup]
      simp
    · rw [claimsAfter_snoc_of_ne hGroup]
      simp [hGroup]

/-- The last number of a resource: none yet, or the one that some endpoint of
the resource was renamed with. -/
theorem counter_claimsAfter (settings : Settings) (group : String) (done : List Endpoint) :
    (claimsAfter settings group done).counter = 0 ∨
      ∃ before e, before ++ [e] <+: done ∧ groupOf settings e = group ∧
        (choiceAfter settings before e).1 =
          Claims.duplicate (methodName e.name) (claimsAfter settings group done).counter := by
  induction done using List.reverseRecOn with
  | nil => exact Or.inl rfl
  | append_singleton done e ih =>
    rw [exists_prefix_snoc_iff]
    by_cases hGroup : groupOf settings e = group
    · rw [claimsAfter_snoc_of_eq hGroup]
      -- `e` leaves the number as it is, or hands out the new one itself
      cases hTaken : (claimsAfter settings group done).taken (methodName e.name) with
      | false =>
        have hSame : ((claimsAfter settings group done).next e).counter =
            (claimsAfter settings group done).counter := by
          show ((claimsAfter settings group done).choose (methodName e.name)).2 = _
          rw [Claims.choose_of_not_taken hTaken]
        rw [hSame]
        exact ih.imp_right Or.inl
      | true =>
        obtain ⟨k, hChoice, -⟩ := Claims.choose_of_taken hTaken
        refine Or.inr (Or.inr ⟨hGroup, ?_⟩)
        show (choiceAfter settings done e).1 = Claims.duplicate _
          ((claimsAfter settings group done).choose (methodName e.name)).2
        rw [choiceAfter, hGroup, hChoice]
    · rw [claimsAfter_snoc_of_ne hGroup]
      exact ih.imp_right Or.inl

/-- No number that was handed out in a resource is larger than its last one. -/
theorem number_le_counter {group : String} {done before : List Endpoint} {e : Endpoint} {i : Nat}
    (hPrefix : before ++ [e] <+: done) (hGroup : groupOf settings e = group)
    (hNumber : (choiceAfter settings before e).1 = Claims.duplicate (methodName e.name) i) :
    i ≤ (claimsAfter settings group done).counter := by
  induction done using List.reverseRecOn with
  | nil => simp [List.prefix_nil] at hPrefix
  | append_singleton done x ih =>
    rcases List.prefix_concat_iff.mp hPrefix with hLast | hEarlier
    · obtain ⟨rfl, hx⟩ := List.append_inj' hLast rfl
      cases hx
      rw [claimsAfter_snoc_of_eq hGroup]
      rw [choiceAfter, hGroup] at hNumber
      exact Nat.le_of_eq (Claims.choose_number hNumber).1.symm
    · have hBefore := ih hEarlier
      by_cases hx : groupOf settings x = group
      · rw [claimsAfter_snoc_of_eq hx]
        exact Nat.le_trans hBefore (Claims.counter_le_choose _ _)
      · rw [claimsAfter_snoc_of_ne hx]
        exact hBefore

-- ---------------------------------------------------------------------------
-- The run
-- ---------------------------------------------------------------------------

/-- The identifiers of an endpoint for which a name was chosen. -/
def nameWith (settings : Settings) (e : Endpoint) (name : String) (arguments : Arguments) :
    ResolvedName where
  resourceClass := groupOf settings e
  methodName := name
  requestClass := requestClass name
  arguments := arguments
  renamedFrom := if name = methodName e.name then none else some (methodName e.name)

section Fields

variable (e : Endpoint) (name : String) (arguments : Arguments)

@[simp] theorem nameWith_resourceClass :
    (nameWith settings e name arguments).resourceClass = groupOf settings e := by
  unfold nameWith
  dsimp only

@[simp] theorem nameWith_methodName :
    (nameWith settings e name arguments).methodName = name := by
  unfold nameWith
  dsimp only

@[simp] theorem nameWith_requestClass :
    (nameWith settings e name arguments).requestClass = requestClass name := by
  unfold nameWith
  dsimp only

@[simp] theorem nameWith_renamedFrom :
    (nameWith settings e name arguments).renamedFrom =
      if name = methodName e.name then none else some (methodName e.name) := by
  unfold nameWith
  dsimp only

end Fields

/-- The record of a renaming, for an endpoint that did not keep its name. -/
def renaming? (e : Endpoint) (n : ResolvedName) : Option Collision :=
  if n.methodName = methodName e.name then none
  else some ⟨n.resourceClass, methodName e.name, n.methodName⟩

/-- The state after a further endpoint, whose argument names are known. -/
def Resolution.next (settings : Settings) (r : Resolution) (e : Endpoint) (arguments : Arguments) :
    Resolution :=
  let claims := (r.claims.get? (groupOf settings e)).getD {}
  let name := nameWith settings e (claims.choose (methodName e.name)).1 arguments
  { claims := r.claims.put (groupOf settings e) (claims.next e)
    names := r.names.put e.key name
    collisions := r.collisions ++ (renaming? e name).toList }

/-- A step fails only where the argument names cannot be chosen. -/
theorem Resolution.add_outcome (r : Resolution) (e : Endpoint) :
    (Resolution.add settings r e).outcome =
      (argumentsOf settings e).map (r.next settings e) := by
  have hGroup : resourceClass (if e.collection = "" then settings.fallbackResource else e.collection) =
      groupOf settings e := rfl
  have hNext : ∀ arguments : Arguments, r.next settings e arguments =
      let claims := (r.claims.get? (groupOf settings e)).getD {}
      let name := nameWith settings e (claims.choose (methodName e.name)).1 arguments
      { claims := r.claims.put (groupOf settings e) (claims.next e)
        names := r.names.put e.key name
        collisions := r.collisions ++ (renaming? e name).toList } := fun _ => rfl
  unfold Resolution.add
  simp only [Journal.outcome_bind, Journal.outcome_ite, Journal.outcome_pure, Journal.outcome_lift,
    hGroup]
  generalize hClaims : (r.claims.get? (groupOf settings e)).getD {} = claims at *
  by_cases hKept : (claims.choose (methodName e.name)).1 = methodName e.name
  · cases argumentsOf settings e with
    | error _ => simp [hKept, Except.map]
    | ok arguments => simp [hKept, Except.map, hNext, nameWith, renaming?, Claims.next]
  · cases argumentsOf settings e with
    | error _ => simp [hKept, Except.map, Journal.debug]
    | ok arguments =>
      simp [hKept, Except.map, hNext, nameWith, renaming?, Claims.next, Journal.debug]

/-- The state has the claims that some endpoints make, for each resource. -/
def ClaimsOf (settings : Settings) (done : List Endpoint) (r : Resolution) : Prop :=
  ∀ group, (r.claims.get? group).getD {} = claimsAfter settings group done

section Claims

variable {done : List Endpoint} {r : Resolution} (hClaims : ClaimsOf settings done r)
include hClaims

/-- The claims after a further endpoint are again those of the endpoints. -/
theorem ClaimsOf.next (e : Endpoint) (arguments : Arguments) :
    ClaimsOf settings (done ++ [e]) (r.next settings e arguments) := by
  intro group
  have hOwn := hClaims (groupOf settings e)
  by_cases hGroup : groupOf settings e = group
  · subst hGroup
    rw [claimsAfter_snoc_of_eq rfl, ← hOwn]
    show ((r.claims.put _ _).get? _).getD {} = _
    rw [Dictionary.get?_put_self]
    rfl
  · rw [claimsAfter_snoc_of_ne hGroup, ← hClaims group]
    show ((r.claims.put _ _).get? _).getD {} = _
    rw [Dictionary.get?_put_of_ne hGroup]

/-- A further endpoint is named by the choice after the endpoints before it. -/
theorem ClaimsOf.next_names (e : Endpoint) (arguments : Arguments) :
    (r.next settings e arguments).names = r.names.put e.key
      (nameWith settings e (choiceAfter settings done e).1 arguments) := by
  unfold Resolution.next choiceAfter
  rw [hClaims (groupOf settings e)]

theorem ClaimsOf.next_collisions (e : Endpoint) (arguments : Arguments) :
    (r.next settings e arguments).collisions = r.collisions ++
      (renaming? e (nameWith settings e (choiceAfter settings done e).1 arguments)).toList := by
  unfold Resolution.next choiceAfter
  rw [hClaims (groupOf settings e)]

end Claims

/-- A run over one more endpoint is a run over those before it and a step. -/
theorem exists_of_resolve_snoc_ok {done : List Endpoint} {e : Endpoint} {r : Resolution}
    (h : (resolve settings (done ++ [e])).outcome = .ok r) :
    ∃ before arguments, (resolve settings done).outcome = .ok before ∧
      argumentsOf settings e = .ok arguments ∧ r = before.next settings e arguments := by
  unfold resolve at h ⊢
  rw [Journal.outcome_foldlM, List.foldlM_append] at h
  obtain ⟨before, hBefore, h⟩ := exists_of_bind_ok h
  rw [List.foldlM_cons] at h
  obtain ⟨after, hAdd, h⟩ := exists_of_bind_ok h
  cases h
  rw [Resolution.add_outcome] at hAdd
  obtain ⟨arguments, hArguments, rfl⟩ := exists_of_map_ok hAdd
  rw [Journal.outcome_foldlM]
  exact ⟨before, arguments, hBefore, hArguments, rfl⟩

/-- Whether or not the keys are distinct, a run has the claims of its endpoints. -/
theorem resolve_claims {endpoints : List Endpoint} {r : Resolution}
    (h : (resolve settings endpoints).outcome = .ok r) : ClaimsOf settings endpoints r := by
  induction endpoints using List.reverseRecOn generalizing r with
  | nil =>
    cases h
    exact fun _ => rfl
  | append_singleton done e ih =>
    obtain ⟨before, arguments, hBefore, -, rfl⟩ := exists_of_resolve_snoc_ok h
    exact (ih hBefore).next e arguments

/-- What the state says after a run over `done`: the claims of each resource are
those of its endpoints, every endpoint has the name that was chosen for it after
the endpoints before it, and the renamings are recorded in order. -/
structure Tracks (settings : Settings) (done : List Endpoint) (r : Resolution) : Prop where
  claims     : ClaimsOf settings done r
  keys       : r.names.keys = done.map Endpoint.key
  names      : ∀ before e, before ++ [e] <+: done → ∃ arguments,
                 argumentsOf settings e = .ok arguments ∧ r.names.get? e.key =
                   some (nameWith settings e (choiceAfter settings before e).1 arguments)
  collisions : r.collisions = done.filterMap fun e => (r.names.get? e.key).bind (renaming? e)

theorem tracks_start : Tracks settings [] {} where
  claims := fun _ => rfl
  keys := rfl
  names := by
    intro before e h
    simp [List.prefix_nil] at h
  collisions := rfl

section Next

variable {done : List Endpoint} {r : Resolution} (hTracks : Tracks settings done r)
include hTracks

/-- **Step.** An endpoint with a new key extends what the state says. -/
theorem Tracks.next {e : Endpoint} {arguments : Arguments} (hNew : e.key ∉ done.map Endpoint.key)
    (hArguments : argumentsOf settings e = .ok arguments) :
    Tracks settings (done ++ [e]) (r.next settings e arguments) := by
  have hNames := hTracks.claims.next_names e arguments
  have hSelf := Dictionary.get?_put_self r.names e.key
    (nameWith settings e (choiceAfter settings done e).1 arguments)
  -- the entries so far have other keys and stay as they are
  have hOther : ∀ d ∈ done, (r.next settings e arguments).names.get? d.key =
      r.names.get? d.key := by
    intro d hd
    rw [hNames]
    refine Dictionary.get?_put_of_ne ?_
    intro hKey
    exact hNew (hKey ▸ List.mem_map_of_mem hd)
  refine ⟨hTracks.claims.next e arguments, ?_, ?_, ?_⟩
  · rw [hNames, Dictionary.put_of_not_mem _ (hTracks.keys ▸ hNew), List.map_append, ← hTracks.keys]
    exact List.map_append
  · intro before x hPrefix
    rcases List.prefix_concat_iff.mp hPrefix with hLast | hEarlier
    · obtain ⟨rfl, hx⟩ := List.append_inj' hLast rfl
      cases hx
      exact ⟨arguments, hArguments, by rw [hNames, hSelf]⟩
    · rw [hOther x (hEarlier.subset (by simp))]
      exact hTracks.names before x hEarlier
  · rw [List.filterMap_append]
    have hEarlier : done.filterMap (fun d => ((r.next settings e arguments).names.get? d.key).bind
        (renaming? d)) = r.collisions := by
      rw [hTracks.collisions]
      refine List.filterMap_congr ?_
      intro d hd
      rw [hOther d hd]
    rw [hEarlier, hTracks.claims.next_collisions, List.filterMap_cons, hNames, hSelf, Option.bind_some]
    cases renaming? e (nameWith settings e (choiceAfter settings done e).1 arguments) with
    | none => rfl
    | some _ => rfl

end Next

/-- The keys of the endpoints before a last one are distinct, and its own is none of them. -/
theorem nodup_keys_snoc {done : List Endpoint} {e : Endpoint}
    (h : ((done ++ [e]).map Endpoint.key).Nodup) :
    (done.map Endpoint.key).Nodup ∧ e.key ∉ done.map Endpoint.key := by
  rw [List.map_append, List.nodup_append] at h
  exact ⟨h.1, fun hMem => h.2.2 e.key hMem e.key (by simp) rfl⟩

/-- **Run.** Resolution of endpoints with distinct keys computes what `Tracks` says. -/
theorem resolve_tracks {endpoints : List Endpoint} {r : Resolution}
    (hKeys : (endpoints.map Endpoint.key).Nodup)
    (h : (resolve settings endpoints).outcome = .ok r) : Tracks settings endpoints r := by
  induction endpoints using List.reverseRecOn generalizing r with
  | nil =>
    cases h
    exact tracks_start
  | append_singleton done e ih =>
    obtain ⟨hDone, hNew⟩ := nodup_keys_snoc hKeys
    obtain ⟨before, arguments, hBefore, hArguments, rfl⟩ := exists_of_resolve_snoc_ok h
    exact (ih hDone hBefore).next hNew hArguments

-- ---------------------------------------------------------------------------
-- Success
-- ---------------------------------------------------------------------------

/-- Argument names can be chosen for all parameters whose names are texts. -/
theorem exists_argumentsOf_ok (settings : Settings) {e : Endpoint}
    (hText : ∀ slot, ∀ p ∈ e.parameters slot, p.name.isText = true) :
    ∃ arguments, argumentsOf settings e = .ok arguments := by
  have hStep : ∀ state : Arguments × List String, ∀ slotted ∈ Slot.passing.flatMap
      (fun slot => (e.parameters slot).map fun p => (slot, p)),
      ∃ state', addArgument settings slotted.1 state slotted.2 = .ok state' := by
    intro state slotted hMem
    obtain ⟨slot, -, hMem⟩ := List.mem_flatMap.mp hMem
    obtain ⟨p, hp, rfl⟩ := List.mem_map.mp hMem
    have hName := hText slot p hp
    unfold addArgument
    split
    · exact ⟨state, rfl⟩
    · cases hValue : p.name with
      | str name => exact ⟨_, rfl⟩
      | _ => simp [hValue, Value.isText] at hName
  obtain ⟨state, hState⟩ := exists_foldlM_ok hStep ([], [])
  refine ⟨state.1, ?_⟩
  show (List.foldlM (fun state slotted => addArgument settings slotted.1 state slotted.2) ([], [])
    (Slot.passing.flatMap fun slot => (e.parameters slot).map fun p => (slot, p)) >>=
      fun state => .ok state.1) = .ok state.1
  rw [hState, ok_bind]

/-- Resolution succeeds for endpoints whose parameters have texts as names. -/
theorem exists_resolve_ok {endpoints : List Endpoint}
    (hText : ∀ e ∈ endpoints, ∀ slot, ∀ p ∈ e.parameters slot, p.name.isText = true) :
    ∃ r, (resolve settings endpoints).outcome = .ok r := by
  unfold resolve
  rw [Journal.outcome_foldlM]
  refine exists_foldlM_ok ?_ _
  intro r e he
  obtain ⟨arguments, hArguments⟩ := exists_argumentsOf_ok settings (hText e he)
  rw [Resolution.add_outcome, hArguments]
  exact ⟨_, rfl⟩

-- ---------------------------------------------------------------------------
-- Keys that are repeated
-- ---------------------------------------------------------------------------

/-- Whether or not the keys are distinct, those that names are found for are those of the endpoints, and
no two entries have the same one. -/
theorem resolve_keys {endpoints : List Endpoint} {r : Resolution}
    (h : (resolve settings endpoints).outcome = .ok r) :
    r.names.Distinct ∧ ∀ key, key ∈ r.names.keys ↔ key ∈ endpoints.map Endpoint.key := by
  induction endpoints using List.reverseRecOn generalizing r with
  | nil =>
    cases h
    exact ⟨List.Pairwise.nil, fun _ => Iff.rfl⟩
  | append_singleton done e ih =>
    obtain ⟨before, arguments, hBefore, -, rfl⟩ := exists_of_resolve_snoc_ok h
    obtain ⟨hDistinct, hKeys⟩ := ih hBefore
    rw [(resolve_claims hBefore).next_names]
    refine ⟨Dictionary.put_distinct _ _ hDistinct, fun key => ?_⟩
    rw [Dictionary.mem_keys_put, hKeys, List.map_append, List.mem_append]
    exact or_congr_right List.mem_singleton.symm

/-- What is found under a key was chosen for the last endpoint that has it, after those before it. -/
theorem exists_nameWith_of_get? {endpoints : List Endpoint} {r : Resolution}
    (h : (resolve settings endpoints).outcome = .ok r) {key : String} {n : ResolvedName}
    (hFound : r.names.get? key = some n) :
    ∃ before e after arguments, endpoints = before ++ e :: after ∧ e.key = key ∧
      key ∉ after.map Endpoint.key ∧ argumentsOf settings e = .ok arguments ∧
      n = nameWith settings e (choiceAfter settings before e).1 arguments := by
  induction endpoints using List.reverseRecOn generalizing r with
  | nil =>
    cases h
    cases hFound
  | append_singleton done e ih =>
    obtain ⟨earlier, arguments, hEarlier, hArguments, rfl⟩ := exists_of_resolve_snoc_ok h
    rw [(resolve_claims hEarlier).next_names] at hFound
    by_cases hKey : e.key = key
    · rw [hKey, Dictionary.get?_put_self] at hFound
      exact ⟨done, e, [], arguments, rfl, hKey, List.not_mem_nil, hArguments, (Option.some.inj hFound).symm⟩
    · rw [Dictionary.get?_put_of_ne hKey] at hFound
      obtain ⟨before, d, after, arguments, rfl, hOwn, hLast, hName⟩ := ih hEarlier hFound
      refine ⟨before, d, after ++ [e], arguments, by simp, hOwn, ?_, hName⟩
      rw [List.map_append, List.mem_append, List.map_singleton, List.mem_singleton]
      exact not_or.mpr ⟨hLast, Ne.symm hKey⟩

/-- So every name that is found was made for one of the endpoints. -/
theorem exists_nameWith_of_mem {endpoints : List Endpoint} {r : Resolution}
    (h : (resolve settings endpoints).outcome = .ok r) :
    ∀ n ∈ r.names.values, ∃ e ∈ endpoints, ∃ name arguments,
      argumentsOf settings e = .ok arguments ∧ n = nameWith settings e name arguments := by
  intro n hMem
  obtain ⟨⟨key, _⟩, hEntry, rfl⟩ := List.mem_map.mp hMem
  have hFound := (Dictionary.get?_eq_some_iff (resolve_keys h).1).mpr hEntry
  obtain ⟨_, e, _, arguments, rfl, -, -, hArguments, hName⟩ := exists_nameWith_of_get? h hFound
  exact ⟨e, by simp, _, arguments, hArguments, hName⟩

end ClientGen.Naming
