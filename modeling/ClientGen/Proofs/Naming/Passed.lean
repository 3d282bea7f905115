import ClientGen.Proofs.Api.Normal
import ClientGen.Proofs.Naming.Arguments

/-!
# Which parameters have an argument

The names of arguments are chosen in one pass over the parameters of all slots, and the
dictionary that comes out is looked into by slot and name later. So that a look-up finds
the name that was chosen for just this parameter, three things have to hold at each
step: the parameters so far have entries in their order, no two of them have the same
entry, and no two entries have the same name. Parameters that are left out have none.

Main results:

* `argumentsOf_chosen` — after the pass all three hold for the parameters that are kept,
  and each name was chosen when just those before it were in use.
* `Chosen.get?_eq_none` / `Chosen.exists_get?` — what a look-up finds.
-/

namespace ClientGen.Naming

open ClientGen.Api ClientGen.Document ClientGen.Document.Value ClientGen.Schema

/-- The parameters of a slot that are not left out. -/
def kept (settings : Settings) (e : Endpoint) (slot : Slot) : List Parameter :=
  (e.parameters slot).filter fun p => !settings.ignores slot p.name

/-- The parameters of all slots with their slots, in the order in which they are passed. -/
def slotted (e : Endpoint) : List (Slot × Parameter) :=
  Slot.passing.flatMap fun slot => (e.parameters slot).map fun p => (slot, p)

/-- Those of them that are not left out. -/
def passed (settings : Settings) (e : Endpoint) : List (Slot × Parameter) :=
  Slot.passing.flatMap fun slot => (kept settings e slot).map fun p => (slot, p)

/-- Does the parameter of the slot get an argument? -/
def isPassed (settings : Settings) (s : Slot × Parameter) : Bool := !settings.ignores s.1 s.2.name

/-- Where a parameter is found: in its slot and under its name. -/
def placeOf (s : Slot × Parameter) : Slot × Value := (s.1, s.2.name)

/-- The place that an entry of the argument names is for. -/
def placeOfKey (k : Slot × String) : Slot × Value := (k.1, .str k.2)

variable {settings : Settings} {e : Endpoint}

theorem placeOfKey_inj {k k' : Slot × String} (h : placeOfKey k = placeOfKey k') : k = k' := by
  obtain ⟨hSlot, hName⟩ := Prod.mk.inj h
  exact Prod.ext hSlot (Value.str.inj hName)

-- ---------------------------------------------------------------------------
-- Parameters of all slots
-- ---------------------------------------------------------------------------

/-- Path parameters are never left out. -/
theorem kept_path (settings : Settings) (e : Endpoint) : kept settings e .path = e.pathParameters :=
  List.filter_eq_self.mpr fun _ _ => rfl

/-- So all of them are passed. -/
theorem mem_passed_path {p : Parameter} : (Slot.path, p) ∈ passed settings e ↔ p ∈ e.pathParameters := by
  rw [← kept_path settings e]
  constructor
  · intro h
    obtain ⟨slot, -, h⟩ := List.mem_flatMap.mp h
    obtain ⟨q, hq, hSame⟩ := List.mem_map.mp h
    cases hSame
    exact hq
  · exact fun h => List.mem_flatMap.mpr ⟨.path, by decide, List.mem_map_of_mem h⟩

theorem filter_slotted : (slotted e).filter (isPassed settings) = passed settings e := by
  rw [slotted, passed, List.filter_flatMap]
  refine List.flatMap_congr fun slot _ => ?_
  rw [List.filter_map]
  rfl

theorem mem_slotted {s : Slot × Parameter} (h : s ∈ slotted e) : s.2 ∈ e.parameters s.1 := by
  obtain ⟨slot, -, h⟩ := List.mem_flatMap.mp h
  obtain ⟨p, hp, rfl⟩ := List.mem_map.mp h
  exact hp

/-- The parameters of a slot among those of all slots. -/
theorem filter_passed (slot : Slot) :
    (passed settings e).filter (·.1 == slot) = (kept settings e slot).map fun p => (slot, p) := by
  have hOwn : ∀ slot', ((kept settings e slot').map fun p => (slot', p)).filter (·.1 == slot) =
      if slot' = slot then (kept settings e slot).map fun p => (slot, p) else [] := by
    intro slot'
    rw [List.filter_map]
    split
    · rename_i hSame
      subst hSame
      simp [Function.comp_def]
    · rename_i hOther
      simp [Function.comp_def, hOther]
  rw [passed, List.filter_flatMap]
  simp only [hOwn]
  cases slot <;> simp [Slot.passing]

/-- No two parameters are found in the same place. -/
def PlacesApart (all : List (Slot × Parameter)) : Prop :=
  all.Pairwise fun s t => s.1 = t.1 → (s.2.name == t.2.name) = false

/-- In each slot the names of parameters are apart, so the places of all parameters are. -/
theorem placesApart_slotted (hApart : ∀ slot, SiblingsApart (e.parameters slot)) :
    PlacesApart (slotted e) := by
  have hSlots : Slot.passing.Pairwise (· ≠ ·) := by decide
  unfold PlacesApart slotted
  rw [List.pairwise_flatMap]
  constructor
  · intro slot _
    rw [List.pairwise_map]
    refine (hApart slot).imp ?_
    intro p q hDiffer _
    exact hDiffer
  · refine hSlots.imp ?_
    intro slot slot' hDiffer s hs t ht hSame
    obtain ⟨_, -, rfl⟩ := List.mem_map.mp hs
    obtain ⟨_, -, rfl⟩ := List.mem_map.mp ht
    exact absurd hSame hDiffer

-- ---------------------------------------------------------------------------
-- Choosing names
-- ---------------------------------------------------------------------------

/-- A chosen name is not taken. -/
theorem freshArgument_not_mem (used : List String) (slot : Slot) (name : String) :
    freshArgument used slot name ∉ used := by
  unfold freshArgument
  exact fresh_not_mem fun _ _ hi hj h => numbered_inj hi hj h

/-- Each name is the fresh one for its place where the names before it are in use. -/
def InTurn (arguments : Arguments) : Prop :=
  ∀ (before : Arguments) (k : Slot × String) (name : String), before ++ [(k, name)] <+: arguments →
    name = freshArgument before.values.reverse k.1 k.2

theorem InTurn.of_prefix {before arguments : Arguments} (h : InTurn arguments)
    (hPrefix : before <+: arguments) : InTurn before := fun earlier k name hEarlier =>
  h earlier k name (hEarlier.trans hPrefix)

theorem InTurn.last {arguments : Arguments} {k : Slot × String} {name : String}
    (h : InTurn (arguments ++ [(k, name)])) :
    name = freshArgument arguments.values.reverse k.1 k.2 :=
  h arguments k name (List.prefix_refl _)

/-- What is found under a key was entered after the arguments before it. -/
theorem InTurn.exists_split {arguments : Arguments} (h : InTurn arguments)
    (hDistinct : arguments.Distinct) {k : Slot × String} {name : String}
    (hFound : arguments.get? k = some name) :
    ∃ before after, arguments = before ++ (k, name) :: after ∧ InTurn (before ++ [(k, name)]) := by
  obtain ⟨before, after, hSplit⟩ :=
    List.append_of_mem ((Dictionary.get?_eq_some_iff hDistinct).mp hFound)
  exact ⟨before, after, hSplit, h.of_prefix ⟨after, by rw [hSplit]; simp⟩⟩

/-- The argument names that were chosen for some parameters, and the names in use. -/
structure Chosen (done : List (Slot × Parameter)) (arguments : Arguments) (used : List String) :
    Prop where
  /-- each parameter has an entry, in order -/
  places : arguments.keys.map placeOfKey = done.map placeOf
  /-- no two of the entries are the same -/
  distinct : arguments.Distinct
  /-- different entries have different names -/
  apart : arguments.values.Nodup
  /-- the names in use are those of the entries, the last one first -/
  inUse : used = arguments.values.reverse
  inTurn : InTurn arguments

theorem chosen_nil : Chosen [] [] [] where
  places := rfl
  distinct := List.Pairwise.nil
  apart := List.nodup_nil
  inUse := rfl
  inTurn := by
    intro before k name hPrefix
    simp [List.prefix_nil] at hPrefix

/-- A parameter at a new place extends what was chosen. -/
theorem Chosen.snoc {done : List (Slot × Parameter)} {arguments : Arguments} {used : List String}
    (hChosen : Chosen done arguments used) {s : Slot × Parameter} {name : String}
    (hName : s.2.name = .str name) (hNew : ∀ t ∈ done, t.1 = s.1 → (t.2.name == s.2.name) = false) :
    Chosen (done ++ [s]) (arguments.put (s.1, name) (freshArgument used s.1 name))
      (freshArgument used s.1 name :: used) := by
  have hFresh : (s.1, name) ∉ arguments.keys := by
    intro hMem
    have hPlace : placeOfKey (s.1, name) ∈ done.map placeOf :=
      hChosen.places ▸ List.mem_map_of_mem hMem
    obtain ⟨t, ht, hSame⟩ := List.mem_map.mp hPlace
    obtain ⟨hSlot, hText⟩ := Prod.mk.inj hSame
    have hDiffer := hNew t ht hSlot
    rw [hName, beq_str.mpr hText] at hDiffer
    cases hDiffer
  have hPut := Dictionary.put_of_not_mem (freshArgument used s.1 name) hFresh
  have hInUse := hChosen.inUse
  have hUnused : freshArgument used s.1 name ∉ arguments.values := by
    rw [← List.mem_reverse, ← hInUse]
    exact freshArgument_not_mem used s.1 name
  refine ⟨?_, Dictionary.put_distinct _ _ hChosen.distinct, ?_, ?_, ?_⟩
  · have hPlace : placeOfKey (s.1, name) = placeOf s := Prod.ext rfl hName.symm
    rw [hPut, Dictionary.keys_append, List.map_append, List.map_append, ← hChosen.places]
    exact congrArg (arguments.keys.map placeOfKey ++ [·]) hPlace
  · rw [hPut, Dictionary.values_snoc]
    exact (List.nodup_append.mpr ⟨hChosen.apart, List.nodup_singleton _, fun a ha b hb => by
      rw [List.mem_singleton.mp hb]
      exact ne_of_mem_of_not_mem ha hUnused⟩)
  · rw [hPut, Dictionary.values_snoc, List.reverse_append, ← hInUse]
    rfl
  · intro before k argument hPrefix
    rw [hPut] at hPrefix
    rcases List.prefix_concat_iff.mp hPrefix with hLast | hEarlier
    · obtain ⟨rfl, hEntry⟩ := List.append_inj' hLast rfl
      cases hEntry
      rw [← hInUse]
    · exact hChosen.inTurn before k argument hEarlier

/-- **Step.** A parameter is left out or gets a name. -/
theorem Chosen.step {done : List (Slot × Parameter)} {state state' : Arguments × List String}
    (hChosen : Chosen done state.1 state.2) {s : Slot × Parameter}
    (hNew : ∀ t ∈ done, t.1 = s.1 → (t.2.name == s.2.name) = false)
    (h : addArgument settings s.1 state s.2 = .ok state') :
    Chosen (done ++ [s].filter (isPassed settings)) state'.1 state'.2 := by
  unfold addArgument at h
  split at h
  · rename_i hIgnored
    cases h
    have hNone : [s].filter (isPassed settings) = [] := by simp [isPassed, hIgnored]
    rwa [hNone, List.append_nil]
  · rename_i hKept
    obtain ⟨name, hName, h⟩ := exists_of_bind_ok h
    cases h
    have hOne : [s].filter (isPassed settings) = [s] := by simp [isPassed, hKept]
    rw [hOne]
    exact hChosen.snoc (asText_ok hName) hNew

/-- **Run.** Parameters at different places are gone through one after the other. -/
theorem Chosen.run {done todo : List (Slot × Parameter)} {state state' : Arguments × List String}
    (hChosen : Chosen done state.1 state.2) (hApart : PlacesApart (done ++ todo))
    (h : todo.foldlM (fun state s => addArgument settings s.1 state s.2) state = .ok state') :
    Chosen (done ++ todo.filter (isPassed settings)) state'.1 state'.2 := by
  induction todo generalizing done state with
  | nil =>
    cases h
    rwa [List.filter_nil, List.append_nil]
  | cons s todo ih =>
    rw [List.foldlM_cons] at h
    obtain ⟨next, hStep, h⟩ := exists_of_bind_ok h
    obtain ⟨-, hTodo, hAcross⟩ := List.pairwise_append.mp hApart
    have hNext := hChosen.step (fun t ht => hAcross t ht s List.mem_cons_self) hStep
    -- what was left out is apart from the rest as well
    have hSublist : List.Sublist ((done ++ [s].filter (isPassed settings)) ++ todo)
        (done ++ s :: todo) := by
      rw [List.append_assoc]
      exact (List.Sublist.refl done).append (List.filter_sublist.append (List.Sublist.refl todo))
    have hRest := ih hNext (hApart.sublist hSublist) h
    rwa [List.append_assoc, ← List.filter_append, List.singleton_append] at hRest

/-- **Names of arguments.** The parameters that are not left out, and no others, have an argument
name each, and these names are different. -/
theorem argumentsOf_chosen_of_siblings {arguments : Arguments}
    (hApart : ∀ slot, SiblingsApart (e.parameters slot))
    (h : argumentsOf settings e = .ok arguments) :
    ∃ used, Chosen (passed settings e) arguments used := by
  obtain ⟨state, hRun, h⟩ := exists_of_bind_ok h
  cases h
  have hRun : (slotted e).foldlM (fun state s => addArgument settings s.1 state s.2) ([], []) =
      .ok state := hRun
  have hChosen : Chosen ([] ++ (slotted e).filter (isPassed settings)) state.1 state.2 :=
    chosen_nil.run (placesApart_slotted hApart) hRun
  rw [List.nil_append, filter_slotted] at hChosen
  exact ⟨state.2, hChosen⟩

/-- So it is where the names are apart at every depth. -/
theorem argumentsOf_chosen {arguments : Arguments} (hApart : ∀ slot, AllApart (e.parameters slot))
    (h : argumentsOf settings e = .ok arguments) :
    ∃ used, Chosen (passed settings e) arguments used :=
  argumentsOf_chosen_of_siblings (fun slot => (hApart slot).siblings) h

-- ---------------------------------------------------------------------------
-- Looking up
-- ---------------------------------------------------------------------------

section LookingUp

variable {arguments : Arguments} {used : List String}
  (hChosen : Chosen (passed settings e) arguments used)
include hChosen

/-- A parameter that is passed is called by a text, and its argument is found under it. -/
theorem Chosen.exists_get? {s : Slot × Parameter} (hs : s ∈ passed settings e) :
    ∃ key name, s.2.name = .str key ∧ arguments.get? (s.1, key) = some name := by
  have hPlace : placeOf s ∈ arguments.keys.map placeOfKey :=
    hChosen.places ▸ List.mem_map_of_mem hs
  obtain ⟨⟨slot, key⟩, hKey, hSame⟩ := List.mem_map.mp hPlace
  obtain ⟨rfl, hText⟩ := Prod.mk.inj hSame
  obtain ⟨name, hName⟩ := Dictionary.mem_keys_iff.mp hKey
  exact ⟨key, name, hText.symm, hName⟩

/-- What is found belongs to a parameter that is passed. -/
theorem Chosen.exists_parameter {slot : Slot} {key name : String}
    (h : arguments.get? (slot, key) = some name) :
    ∃ p, (slot, p) ∈ passed settings e ∧ p.name = .str key := by
  have hPlace : placeOfKey (slot, key) ∈ (passed settings e).map placeOf :=
    hChosen.places ▸ List.mem_map_of_mem (Dictionary.mem_keys_iff.mpr ⟨name, h⟩)
  obtain ⟨⟨_, p⟩, hs, hSame⟩ := List.mem_map.mp hPlace
  obtain ⟨rfl, hText⟩ := Prod.mk.inj hSame
  exact ⟨p, hs, hText⟩

/-- For a parameter that is left out nothing is found. -/
theorem Chosen.get?_eq_none {slot : Slot} {key : String}
    (hIgnored : settings.ignores slot (.str key) = true) : arguments.get? (slot, key) = none := by
  by_contra hFound
  obtain ⟨name, hName⟩ := Option.ne_none_iff_exists'.mp hFound
  obtain ⟨p, hs, hText⟩ := hChosen.exists_parameter hName
  rw [← filter_slotted] at hs
  have hKept := (List.mem_filter.mp hs).2
  rw [isPassed, hText, hIgnored] at hKept
  cases hKept

/-- Different places have different names. -/
theorem Chosen.key_inj {k k' : Slot × String} {name : String} (h : arguments.get? k = some name)
    (h' : arguments.get? k' = some name) : k = k' := by
  have hMem := (Dictionary.get?_eq_some_iff hChosen.distinct).mp h
  have hMem' := (Dictionary.get?_eq_some_iff hChosen.distinct).mp h'
  exact congrArg Prod.fst (List.inj_on_of_nodup_map hChosen.apart hMem hMem' rfl)

end LookingUp

end ClientGen.Naming
