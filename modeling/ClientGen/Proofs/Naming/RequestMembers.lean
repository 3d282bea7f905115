import ClientGen.Proofs.Api.Addresses
import ClientGen.Proofs.Naming.Passed

/-!
# Arguments and the members of a request

A request keeps each argument under its name, beside the members that its class defines
for all requests. A parameter gives way to these members before the names in use are
looked at. What is added after that, the slot or a number, can lead back to a member: a
second parameter called `default` takes `default_body` or `default_query`, after its slot.
No other name does.

Main results:

* `freshArgument_eq_iff` — how a word without digits comes to be chosen.
* `InTurn.default_mem_iff` / `InTurn.defaultMember_mem_iff` — which of the words in question
  are in use, by the parameters called `default`.
* `argumentsOf_requestMembers` — which arguments have the names of members, in all endpoints.
-/

namespace ClientGen.Naming

open ClientGen.Api ClientGen.Document ClientGen.Document.Value ClientGen.Schema

-- ---------------------------------------------------------------------------
-- One name
-- ---------------------------------------------------------------------------

/-- A word without digits is chosen where it is the name that is wanted, and not in use. -/
theorem freshArgument_eq_iff {word : String} (hWord : DigitFree word) (used : List String) (slot : Slot)
    (name : String) :
    freshArgument used slot name = word ↔ word ∉ used ∧ wantedArgument used slot name = word := by
  rcases freshArgument_cases used slot name with ⟨hFree, hName⟩ | ⟨hTaken, n, hName⟩
  · rw [hName]
    constructor
    · rintro rfl
      exact ⟨hFree, rfl⟩
    · exact And.right
  · rw [hName]
    constructor
    · exact fun h => absurd h (append_number_ne hWord _ n)
    · rintro ⟨hFree, rfl⟩
      exact absurd hTaken hFree

/-- The slots whose names make a member of `default`. -/
def shadowing : List Slot := [.body, .query]

/-- What `default` is called where its slot comes after it. -/
def defaultMember (slot : Slot) : String := "default" ++ "_" ++ slot.name

theorem defaultMember_mem_iff {slot : Slot} :
    defaultMember slot ∈ requestMembers ↔ slot ∈ shadowing := by
  cases slot <;> decide

theorem digitFree_of_mem_requestMembers {word : String} (h : word ∈ requestMembers) : DigitFree word := by
  have hAll : ∀ word ∈ requestMembers, DigitFree word := by decide +kernel
  exact hAll word h

theorem digitFree_defaultMember (slot : Slot) : DigitFree (defaultMember slot) := by
  cases slot <;> decide +kernel

/-- A parameter gives way to the members of a request. -/
theorem ownArgument_not_mem (name : String) : ownArgument name ∉ requestMembers := by
  have hMarked : ∀ word ∈ requestMembers, word ++ "_" ∉ requestMembers := by decide
  unfold ownArgument
  split
  · rename_i hMember
    exact hMarked _ (List.contains_iff_mem.mp hMember)
  · rename_i hOther
    exact fun h => hOther (List.contains_iff_mem.mpr h)

theorem ownArgument_eq_default_iff {name : String} :
    ownArgument name = "default" ↔ argumentName name = "default" := by
  have hMarked : ∀ word ∈ requestMembers, word ++ "_" ≠ "default" ∧ word ≠ "default" := by decide
  unfold ownArgument
  split
  · rename_i hMember
    have hDiffer := hMarked _ (List.contains_iff_mem.mp hMember)
    exact ⟨fun h => absurd h hDiffer.1, fun h => absurd h hDiffer.2⟩
  · exact Iff.rfl

/-- What a word ends in, it ends in however it is put together. -/
theorem suffix_of_append_eq {s t word : String} (h : s ++ t = word) : t.toList <:+ word.toList :=
  ⟨s.toList, by rw [← h, String.toList_append]⟩

/-- A name with a slot after it is a member only if it is `default`. -/
theorem slotted_mem_requestMembers_iff {word : String} {slot : Slot} :
    word ++ "_" ++ slot.name ∈ requestMembers ↔ word = "default" ∧ slot ∈ shadowing := by
  constructor
  · intro h
    rw [String.append_assoc] at h
    have hEnds : ∀ member ∈ requestMembers, ("_" ++ slot.name).toList <:+ member.toList →
        member = "default" ++ ("_" ++ slot.name) := by
      cases slot <;> decide
    have hWord := hEnds _ h (suffix_of_append_eq rfl)
    have hDefault : word = "default" := (String.append_left_inj _).mp hWord
    rw [hDefault, ← String.append_assoc] at h
    exact ⟨hDefault, defaultMember_mem_iff.mp h⟩
  · rintro ⟨rfl, hSlot⟩
    exact defaultMember_mem_iff.mpr hSlot

variable {used : List String} {slot : Slot} {name : String}

theorem wantedArgument_eq_default_iff :
    wantedArgument used slot name = "default" ↔ argumentName name = "default" ∧ "default" ∉ used := by
  unfold wantedArgument
  split
  · rename_i hTaken
    have hEnds : ¬ ("_" ++ slot.name).toList <:+ "default".toList := by cases slot <;> decide
    constructor
    · intro h
      rw [String.append_assoc] at h
      exact absurd (suffix_of_append_eq h) hEnds
    · rintro ⟨hName, hFree⟩
      rw [ownArgument_eq_default_iff.mpr hName] at hTaken
      exact absurd (List.contains_iff_mem.mp hTaken) hFree
  · rename_i hFree
    rw [ownArgument_eq_default_iff]
    refine ⟨fun hName => ⟨hName, ?_⟩, And.left⟩
    rw [ownArgument_eq_default_iff.mpr hName] at hFree
    exact fun h => hFree (List.contains_iff_mem.mpr h)

theorem wantedArgument_mem_iff :
    wantedArgument used slot name ∈ requestMembers ↔
      (argumentName name = "default" ∧ "default" ∈ used) ∧ slot ∈ shadowing := by
  unfold wantedArgument
  split
  · rename_i hTaken
    rw [slotted_mem_requestMembers_iff, ownArgument_eq_default_iff]
    refine and_congr_left fun _ => ⟨fun hName => ⟨hName, ?_⟩, And.left⟩
    rw [ownArgument_eq_default_iff.mpr hName] at hTaken
    exact List.contains_iff_mem.mp hTaken
  · rename_i hFree
    refine ⟨fun h => absurd h (ownArgument_not_mem name), ?_⟩
    rintro ⟨⟨hName, hTaken⟩, -⟩
    rw [ownArgument_eq_default_iff.mpr hName] at hFree
    exact absurd (List.contains_iff_mem.mpr hTaken) hFree

/-- The member that is wanted is that of the slot. -/
theorem wantedArgument_eq_defaultMember (h : wantedArgument used slot name ∈ requestMembers) :
    wantedArgument used slot name = defaultMember slot := by
  obtain ⟨⟨hName, hTaken⟩, -⟩ := wantedArgument_mem_iff.mp h
  have hOwn := ownArgument_eq_default_iff.mpr hName
  rw [wantedArgument, hOwn, if_pos (List.contains_iff_mem.mpr hTaken)]
  rfl

/-- The first parameter called `default` keeps the name. -/
theorem freshArgument_eq_default_iff :
    freshArgument used slot name = "default" ↔ argumentName name = "default" ∧ "default" ∉ used := by
  rw [freshArgument_eq_iff (by decide +kernel), wantedArgument_eq_default_iff]
  exact ⟨And.right, fun h => ⟨h.2, h⟩⟩

/-- **Names of members.** An argument has the name of a member where its parameter is called `default` and
this word is in use, but not the one that has the slot after it. -/
theorem freshArgument_mem_iff :
    freshArgument used slot name ∈ requestMembers ↔
      ((argumentName name = "default" ∧ "default" ∈ used) ∧ slot ∈ shadowing) ∧
        defaultMember slot ∉ used := by
  rw [← wantedArgument_mem_iff]
  constructor
  · intro h
    obtain ⟨hFree, hWanted⟩ :=
      (freshArgument_eq_iff (digitFree_of_mem_requestMembers h) used slot name).mp rfl
    rw [← hWanted] at h hFree
    exact ⟨h, wantedArgument_eq_defaultMember h ▸ hFree⟩
  · rintro ⟨hWanted, hFree⟩
    rw [← wantedArgument_eq_defaultMember hWanted] at hFree
    rwa [(freshArgument_eq_iff (digitFree_of_mem_requestMembers hWanted) used slot name).mpr
      ⟨hFree, rfl⟩]

/-- The member is that of the slot. -/
theorem freshArgument_eq_defaultMember (h : freshArgument used slot name ∈ requestMembers) :
    freshArgument used slot name = defaultMember slot := by
  obtain ⟨hWanted, hFree⟩ := freshArgument_mem_iff.mp h
  have hName := wantedArgument_eq_defaultMember (wantedArgument_mem_iff.mpr hWanted)
  exact (freshArgument_eq_iff (digitFree_defaultMember slot) used slot name).mpr ⟨hFree, hName⟩

theorem defaultMember_inj {slot slot' : Slot} (h : defaultMember slot = defaultMember slot') :
    slot = slot' :=
  Slot.name_inj ((String.append_right_inj _).mp h)

theorem freshArgument_eq_defaultMember_iff {slot' : Slot} (hSlot : slot' ∈ shadowing) :
    freshArgument used slot name = defaultMember slot' ↔
      slot = slot' ∧ freshArgument used slot name ∈ requestMembers := by
  constructor
  · intro h
    have hMember : freshArgument used slot name ∈ requestMembers := h ▸ defaultMember_mem_iff.mpr hSlot
    exact ⟨defaultMember_inj ((freshArgument_eq_defaultMember hMember).symm.trans h), hMember⟩
  · rintro ⟨rfl, hMember⟩
    exact freshArgument_eq_defaultMember hMember

-- ---------------------------------------------------------------------------
-- All names
-- ---------------------------------------------------------------------------

/-- Is the parameter called `default`, as far as its argument goes? -/
def isDefault (k : Slot × String) : Bool := argumentName k.2 == "default"

/-- The parameters called `default`, in the order in which their names are chosen. -/
def defaults (arguments : Arguments) : List (Slot × String) := arguments.keys.filter isDefault

/-- Of the parameters called `default` that come after another one, the first one in a slot. -/
def laterDefault? (arguments : Arguments) (slot : Slot) : Option (Slot × String) :=
  (defaults arguments).tail.find? (·.1 == slot)

section Runs

variable {arguments before after : Arguments} {k : Slot × String}

theorem defaults_append (before after : Arguments) :
    defaults (before ++ after) = defaults before ++ defaults after := by
  rw [defaults, Dictionary.keys_append, List.filter_append]
  rfl

theorem defaults_cons (h : argumentName k.2 = "default") (name : String) (after : Arguments) :
    defaults ((k, name) :: after) = k :: defaults after :=
  List.filter_cons_of_pos (beq_iff_eq.mpr h)

theorem defaults_snoc_of_default (h : argumentName k.2 = "default") (name : String) :
    defaults (arguments ++ [(k, name)]) = defaults arguments ++ [k] := by
  rw [defaults_append, defaults_cons h]
  rfl

theorem defaults_snoc_of_other (h : argumentName k.2 ≠ "default") (name : String) :
    defaults (arguments ++ [(k, name)]) = defaults arguments := by
  have hNone : defaults [(k, name)] = [] :=
    List.filter_cons_of_neg fun hDefault => h (beq_iff_eq.mp hDefault)
  rw [defaults_append, hNone, List.append_nil]

/-- The word `default` is in use as soon as a parameter is called so. -/
theorem InTurn.default_mem_iff (h : InTurn arguments) :
    "default" ∈ arguments.values ↔ defaults arguments ≠ [] := by
  induction arguments using List.reverseRecOn with
  | nil => simp [Dictionary.values, defaults, Dictionary.keys]
  | append_singleton arguments entry ih =>
    obtain ⟨k, name⟩ := entry
    have hLast : "default" = name ↔
        argumentName k.2 = "default" ∧ "default" ∉ Dictionary.values arguments := by
      rw [h.last, eq_comm, freshArgument_eq_default_iff, List.mem_reverse]
    rw [Dictionary.values_snoc, List.mem_append, List.mem_singleton, hLast]
    by_cases hDefault : argumentName k.2 = "default"
    · rw [defaults_snoc_of_default hDefault]
      have hSome : defaults arguments ++ [k] ≠ [] := List.concat_ne_nil _ _
      exact ⟨fun _ => hSome, fun _ => (Decidable.em _).imp_right fun hFree => ⟨hDefault, hFree⟩⟩
    · rw [defaults_snoc_of_other hDefault, ← ih (h.of_prefix (List.prefix_append _ _))]
      exact ⟨fun hMem => hMem.elim id fun hBoth => absurd hBoth.1 hDefault, Or.inl⟩

/-- What comes after a parameter called `default` is looked through from its first one on. -/
theorem laterDefault?_append_of_some (h : defaults before ≠ []) (slot : Slot) :
    laterDefault? (before ++ after) slot =
      (laterDefault? before slot).or ((defaults after).find? (·.1 == slot)) := by
  rw [laterDefault?, defaults_append, List.tail_append_of_ne_nil h, List.find?_append]
  rfl

theorem laterDefault?_append_of_none (h : defaults before = []) (slot : Slot) :
    laterDefault? (before ++ after) slot = laterDefault? after slot := by
  rw [laterDefault?, defaults_append, h, List.nil_append]
  rfl

theorem mem_defaults_of_later {slot : Slot} (h : laterDefault? arguments slot = some k) :
    k ∈ arguments.keys ∧ argumentName k.2 = "default" :=
  (List.mem_filter.mp (List.mem_of_mem_tail (List.mem_of_find?_eq_some h))).imp_right beq_iff_eq.mp

/-- A further parameter counts if it is called `default` and is not the first one that is. -/
theorem laterDefault?_snoc (name : String) (slot : Slot) :
    laterDefault? (arguments ++ [(k, name)]) slot = (laterDefault? arguments slot).or
      (if (argumentName k.2 = "default" ∧ defaults arguments ≠ []) ∧ k.1 = slot then some k
        else none) := by
  by_cases hDefault : argumentName k.2 = "default"
  · by_cases hFirst : defaults arguments = []
    · rw [laterDefault?, defaults_snoc_of_default hDefault, laterDefault?, hFirst]
      simp
    · rw [laterDefault?, defaults_snoc_of_default hDefault, List.tail_append_of_ne_nil hFirst,
        List.find?_append, List.find?_singleton]
      simp [laterDefault?, hDefault, hFirst]
  · rw [laterDefault?, defaults_snoc_of_other hDefault, laterDefault?]
    simp [hDefault]

/-- **Step.** If the words with slots in use are known, so is whether a further argument has the name
of a member. -/
theorem InTurn.last_mem_iff {name : String} (h : InTurn (arguments ++ [(k, name)]))
    (hSlotted : ∀ slot ∈ shadowing, (defaultMember slot ∈ arguments.values ↔
      (laterDefault? arguments slot).isSome)) :
    name ∈ requestMembers ↔ (argumentName k.2 = "default" ∧ defaults arguments ≠ []) ∧
      k.1 ∈ shadowing ∧ laterDefault? arguments k.1 = none := by
  rw [h.last, freshArgument_mem_iff, List.mem_reverse, List.mem_reverse,
    (h.of_prefix (List.prefix_append _ _)).default_mem_iff, and_assoc]
  refine and_congr_right fun _ => and_congr_right fun hShadowing => ?_
  rw [hSlotted _ hShadowing, Option.not_isSome_iff_eq_none]

/-- **Run.** With a slot after it, the word is in use as soon as another parameter was called so before
one of the slot. -/
theorem InTurn.defaultMember_mem_iff (h : InTurn arguments) :
    ∀ slot ∈ shadowing, (defaultMember slot ∈ arguments.values ↔
      (laterDefault? arguments slot).isSome) := by
  induction arguments using List.reverseRecOn with
  | nil => simp [Dictionary.values, laterDefault?, defaults, Dictionary.keys]
  | append_singleton arguments entry ih =>
    intro slot hSlot
    obtain ⟨k, name⟩ := entry
    have ih := ih (h.of_prefix (List.prefix_append _ _))
    have hLast : defaultMember slot = name ↔ k.1 = slot ∧ name ∈ requestMembers := by
      rw [h.last, eq_comm, freshArgument_eq_defaultMember_iff hSlot]
    rw [Dictionary.values_snoc, List.mem_append, List.mem_singleton, hLast, h.last_mem_iff ih, ih slot hSlot,
      laterDefault?_snoc, Option.isSome_or, Bool.or_eq_true]
    by_cases hEarlier : (laterDefault? arguments slot).isSome
    · simp [hEarlier]
    · rw [Option.not_isSome_iff_eq_none] at hEarlier
      rw [hEarlier]
      split
      · rename_i hBoth
        obtain ⟨hDefault, rfl⟩ := hBoth
        simp [hDefault, hSlot, hEarlier]
      · rename_i hNot
        simp only [Option.isSome_none, Bool.false_eq_true, false_or, iff_false]
        exact fun hBoth => hNot ⟨hBoth.2.1, hBoth.1⟩

/-- The argument of a parameter has the name of a member if the parameter is the later one of its slot. -/
theorem InTurn.mem_requestMembers_iff {name : String} (h : InTurn arguments)
    (hDistinct : arguments.Distinct) (hFound : arguments.get? k = some name) :
    name ∈ requestMembers ↔ k.1 ∈ shadowing ∧ laterDefault? arguments k.1 = some k := by
  obtain ⟨before, after, rfl, hTurn⟩ := h.exists_split hDistinct hFound
  have hOnce := Dictionary.distinct_iff_nodup.mp hDistinct
  rw [Dictionary.keys_append] at hOnce
  have hBefore : k ∉ Dictionary.keys before := fun hk =>
    (List.nodup_append.mp hOnce).2.2 k hk k List.mem_cons_self rfl
  have hAfter : k ∉ Dictionary.keys after := (List.nodup_cons.mp (List.nodup_append.mp hOnce).2.1).1
  rw [hTurn.last_mem_iff (hTurn.of_prefix (List.prefix_append _ _)).defaultMember_mem_iff]
  constructor
  · rintro ⟨⟨hDefault, hSome⟩, hSlot, hNone⟩
    rw [laterDefault?_append_of_some hSome, hNone, Option.none_or, defaults_cons hDefault]
    exact ⟨hSlot, List.find?_cons_of_pos (beq_self_eq_true k.1)⟩
  · rintro ⟨hSlot, hLater⟩
    have hDefault := (mem_defaults_of_later hLater).2
    have hSome : defaults before ≠ [] := by
      intro hNone
      -- then `k` is the first of all, and the later one would have the same place
      rw [laterDefault?_append_of_none hNone, laterDefault?, defaults_cons hDefault] at hLater
      exact hAfter (List.mem_filter.mp (List.mem_of_find?_eq_some hLater)).1
    refine ⟨⟨hDefault, hSome⟩, hSlot, ?_⟩
    cases hEarlier : laterDefault? before k.1 with
    | none => rfl
    | some k' =>
      rw [laterDefault?_append_of_some hSome, hEarlier, Option.some_or] at hLater
      cases hLater
      exact absurd (mem_defaults_of_later hEarlier).1 hBefore

end Runs

/--
**Arguments and the members of a request.** For every endpoint in whose slots the names of parameters
differ, and under all settings: if its parameters get arguments, then these are the parameters that are
not left out, and an argument has the name of a member exactly if its parameter is called `default` and is
the first one in the body, or the first one in the query, that comes after another parameter called so.
The member is `default_body` or `default_query` then. The parameters get arguments when they have texts as
names.
-/
theorem argumentsOf_requestMembers (settings : Settings) {e : Endpoint}
    (hApart : ∀ slot, SiblingsApart (e.parameters slot)) :
    (∀ arguments, argumentsOf settings e = .ok arguments →
      arguments.keys.map placeOfKey = (passed settings e).map placeOf ∧
      ∀ k name, arguments.get? k = some name →
        (name ∈ requestMembers ↔ k.1 ∈ shadowing ∧ laterDefault? arguments k.1 = some k) ∧
        (name ∈ requestMembers → name = defaultMember k.1)) ∧
    ((∀ slot, ∀ p ∈ e.parameters slot, p.name.isText = true) →
      ∃ arguments, argumentsOf settings e = .ok arguments) := by
  refine ⟨fun arguments hArguments => ?_, exists_argumentsOf_ok settings⟩
  obtain ⟨used, hChosen⟩ := argumentsOf_chosen_of_siblings hApart hArguments
  refine ⟨hChosen.places, fun k name hFound => ?_⟩
  refine ⟨hChosen.inTurn.mem_requestMembers_iff hChosen.distinct hFound, fun hMember => ?_⟩
  obtain ⟨before, after, -, hTurn⟩ := hChosen.inTurn.exists_split hChosen.distinct hFound
  rw [hTurn.last] at hMember ⊢
  exact freshArgument_eq_defaultMember hMember

/-- A parameter of which no more is known than its name. -/
def called (name : String) : Parameter where
  kind := .dynamic
  nullable := false
  name := .str name

/-- An endpoint with parameters of the names in its slots. -/
def endpointCalling (path body query header : List String) : Endpoint where
  name := "call"
  method := .post
  path := "/call"
  segments := ["call"]
  collection := "calls"
  pathParameters := path.map called
  bodyParameters := body.map called
  queryParameters := query.map called
  headerParameters := header.map called

theorem siblingsApart_called {names : List String} (h : names.Nodup) :
    SiblingsApart (names.map called) :=
  List.pairwise_map.mpr (h.imp fun hDiffer => Bool.eq_false_iff.mpr fun hSame =>
    hDiffer (Value.str.inj (beq_str.mp hSame)))

section Calling

variable {path body query header : List String}

theorem siblingsApart_endpointCalling (hPath : path.Nodup) (hBody : body.Nodup) (hQuery : query.Nodup)
    (hHeader : header.Nodup) (slot : Slot) :
    SiblingsApart ((endpointCalling path body query header).parameters slot) := by
  cases slot with
  | path => exact siblingsApart_called hPath
  | body => exact siblingsApart_called hBody
  | query => exact siblingsApart_called hQuery
  | header => exact siblingsApart_called hHeader

theorem isText_endpointCalling (slot : Slot) :
    ∀ p ∈ (endpointCalling path body query header).parameters slot, p.name.isText = true := by
  intro p hp
  cases slot <;> obtain ⟨name, -, rfl⟩ := List.mem_map.mp hp <;> rfl

end Calling

/-- Where a parameter called `default` is in the path and one in the body, the argument of the second one
has the name of a member. -/
theorem default_body_shadowed :
    (∀ slot, SiblingsApart ((endpointCalling ["default"] ["default"] [] []).parameters slot)) ∧
    ∃ arguments, argumentsOf {} (endpointCalling ["default"] ["default"] [] []) = .ok arguments ∧
      arguments.get? (.body, "default") = some "default_body" ∧ "default_body" ∈ requestMembers := by
  refine ⟨siblingsApart_endpointCalling (by decide) (by decide) (by decide) (by decide),
    [((.path, "default"), "default"), ((.body, "default"), "default_body")],
    ok_of_toOption (by decide +kernel), by decide, by decide⟩

/-- An endpoint with five parameters called `default`, two of them in the body. -/
def fiveDefaults : Endpoint :=
  endpointCalling ["default"] ["default", "Default"] ["default"] ["default"]

/-- Two of their arguments have the names of members. -/
theorem members_of_fiveDefaults :
    ∃ arguments, argumentsOf {} fiveDefaults = .ok arguments ∧
      arguments.values = ["default", "default_body", "default_body2", "default_query", "default_header"] ∧
      (∀ k name, arguments.get? k = some name →
        (name ∈ requestMembers ↔ k.1 ∈ shadowing ∧ laterDefault? arguments k.1 = some k)) ∧
      laterDefault? arguments .body = some (.body, "default") ∧
      laterDefault? arguments .query = some (.query, "default") := by
  obtain ⟨hMembers, hTexts⟩ := argumentsOf_requestMembers (e := fiveDefaults) {}
    (siblingsApart_endpointCalling (by decide) (by decide) (by decide) (by decide))
  obtain ⟨arguments, hArguments⟩ := hTexts isText_endpointCalling
  have hFound : argumentsOf {} fiveDefaults = .ok [((.path, "default"), "default"),
      ((.body, "default"), "default_body"), ((.body, "Default"), "default_body2"),
      ((.query, "default"), "default_query"), ((.header, "default"), "default_header")] :=
    ok_of_toOption (by decide +kernel)
  cases hArguments.symm.trans hFound
  exact ⟨_, hArguments, by decide, fun k name h => ((hMembers _ hArguments).2 k name h).1,
    by decide +kernel, by decide +kernel⟩

end ClientGen.Naming
