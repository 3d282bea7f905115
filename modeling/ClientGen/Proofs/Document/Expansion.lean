import ClientGen.Proofs.Document.References
import ClientGen.Proofs.Outcome
import ClientGen.Proofs.Sorting

/-!
# The rules of expansion

What expansion makes of a value, said without the memory of expanded targets and
without the references that are being expanded. Values are expanded member by
member, and a reference becomes its expanded target with its expanded siblings laid
over it. There are two more rules for references: one that points to a missing
component schema or is on a cycle with the reference whose target it is in may be left
in place, and any other one that leads nowhere is a fault. A reference in its own target
is always left in place. Which of the others on a cycle are, the rules do not say; that
depends on where the expansion started.

Main results:

* `expand_follows` — expansion follows the rules.
* `exists_expand_ok_iff` — it fails just where a reference leads nowhere.
-/

namespace ClientGen.Document

open ClientGen.Schema

variable {document : Value}

mutual

/-- The outcome of expanding a value at a place of the document, inside the target of a reference
or outside of all targets. -/
inductive Expands (document : Value) : Option String → String → Value → Except Fault Value → Prop
  | scalar {inside : Option String} {place : String} {v : Value} (hList : ∀ items, v ≠ .list items)
      (hMap : ∀ entries, v ≠ .map entries) : Expands document inside place v (.ok v)
  | list {inside : Option String} {place : String} {items : List Value}
      {o : Except Fault (List Value)} (hItems : ItemsExpand document inside place 0 items o) :
      Expands document inside place (.list items) (o.map .list)
  | map {inside : Option String} {place : String} {entries : Entries} {o : Except Fault Entries}
      (hPlain : openRef? (.map entries) = none)
      (hEntries : EntriesExpand document inside place entries o) :
      Expands document inside place (.map entries) (o.map .map)
  /-- siblings are expanded before their reference is looked at -/
  | siblings {inside : Option String} {place ref : String} {entries : Entries} {fault : Fault}
      (hRef : openRef? (.map entries) = some ref)
      (hSiblings : EntriesExpand document inside place (Dictionary.erase entries (.str refKey))
        (.error fault)) :
      Expands document inside place (.map entries) (.error fault)
  | target {inside : Option String} {place ref : String} {entries siblings : Entries}
      {target : Value} {o : Except Fault Value} (hRef : openRef? (.map entries) = some ref)
      (hOutside : inside ≠ some ref)
      (hSiblings : EntriesExpand document inside place (Dictionary.erase entries (.str refKey))
        (.ok siblings))
      (hTarget : resolve document ref = .ok target) (h : Expands document (some ref) ref target o) :
      Expands document inside place (.map entries)
        (o.map fun w => withSiblings siblings (withOrigin ref w))
  | leave {inside : Option String} {place ref : String} {entries siblings : Entries}
      (hRef : openRef? (.map entries) = some ref)
      (hSiblings : EntriesExpand document inside place (Dictionary.erase entries (.str refKey))
        (.ok siblings))
      (hOpen : MissingSchema document ref ∨ Recurs document inside ref) :
      Expands document inside place (.map entries) (.ok (openNode ref siblings))
  | dangling {inside : Option String} {place ref : String} {entries siblings : Entries}
      {fault : Fault} (hRef : openRef? (.map entries) = some ref)
      (hSiblings : EntriesExpand document inside place (Dictionary.erase entries (.str refKey))
        (.ok siblings))
      (hTarget : resolve document ref = .error fault)
      (hOther : ref.startsWith schemaPointer = false) :
      Expands document inside place (.map entries) (.error (.unresolved ref place))

/-- The outcome of expanding items, the first of which has the given index. -/
inductive ItemsExpand (document : Value) :
    Option String → String → Nat → List Value → Except Fault (List Value) → Prop
  | nil {inside : Option String} {place : String} {index : Nat} :
      ItemsExpand document inside place index [] (.ok [])
  | fail {inside : Option String} {place : String} {index : Nat} {v : Value} {vs : List Value}
      {fault : Fault} (head : Expands document inside s!"{place}/{index}" v (.error fault)) :
      ItemsExpand document inside place index (v :: vs) (.error fault)
  | cons {inside : Option String} {place : String} {index : Nat} {v w : Value} {vs : List Value}
      {o : Except Fault (List Value)} (head : Expands document inside s!"{place}/{index}" v (.ok w))
      (rest : ItemsExpand document inside place (index + 1) vs o) :
      ItemsExpand document inside place index (v :: vs) (o.map (w :: ·))

/-- The outcome of expanding the values of entries. -/
inductive EntriesExpand (document : Value) :
    Option String → String → Entries → Except Fault Entries → Prop
  | nil {inside : Option String} {place : String} : EntriesExpand document inside place [] (.ok [])
  | fail {inside : Option String} {place : String} {k v : Value} {es : Entries} {fault : Fault}
      (head : Expands document inside s!"{place}/{k.display}" v (.error fault)) :
      EntriesExpand document inside place ((k, v) :: es) (.error fault)
  | cons {inside : Option String} {place : String} {k v w : Value} {es : Entries}
      {o : Except Fault Entries} (head : Expands document inside s!"{place}/{k.display}" v (.ok w))
      (rest : EntriesExpand document inside place es o) :
      EntriesExpand document inside place ((k, v) :: es) (o.map ((k, w) :: ·))

end

-- ---------------------------------------------------------------------------
-- Steps of expansion
-- ---------------------------------------------------------------------------

theorem isStr_eq_beq {v : Value} {s : String} : v.isStr s = (v == .str s) := by
  rw [Bool.eq_iff_iff, Value.isStr_iff, Value.beq_str]

section Steps

variable {available : List String} {place : String} {entries : Entries}

/-- A mapping that is no reference is expanded entry by entry. -/
theorem expandValue_map (h : openRef? (.map entries) = none) :
    expandValue document available place (.map entries) = do
      return .map (← expandEntries document available place false entries) := by
  rw [expandValue]
  split
  · rename_i hText
    rw [openRef?_map.mpr hText] at h
    cases h
  · rfl

/-- The reference that a mapping is decides once its siblings are expanded. -/
theorem expandValue_ref {ref : String} (h : openRef? (.map entries) = some ref) :
    expandValue document available place (.map entries) = do
      let siblings ← expandEntries document available place true entries
      if ref ∈ available then
        match (← get).get? ref with
        | some expanded => return withSiblings siblings expanded
        | none =>
          match resolve document ref with
          | .error _ =>
            if ref.startsWith schemaPointer then
              Journal.warn .loading
                s!"Unresolved schema reference {ref} at {place}; treating as opaque"
              return openNode ref siblings
            else throw (.unresolved ref place)
          | .ok target =>
            let expanded ← expandValue document (available.erase ref) ref target
            let expanded := withOrigin ref expanded
            modify fun memory => memory.put ref expanded
            return withSiblings siblings expanded
      else
        Journal.debug .loading s!"Cyclic reference {ref} at {place} left unresolved"
        return openNode ref siblings := by
  rw [expandValue]
  split
  · rename_i hText
    rw [openRef?_map.mpr hText] at h
    cases h
    rfl
  · rename_i hOther
    exact absurd (openRef?_map.mp h) (hOther ref)

/-- The siblings of a reference are its entries without the reference. -/
theorem expandEntries_siblings :
    expandEntries document available place true entries =
      expandEntries document available place false (Dictionary.erase entries (.str refKey)) := by
  induction entries with
  | nil => simp [Dictionary.erase, expandEntries]
  | cons e es ih =>
    obtain ⟨k, v⟩ := e
    have hErase : Dictionary.erase ((k, v) :: es) (.str refKey) =
        if k.isStr refKey then Dictionary.erase es (.str refKey)
        else (k, v) :: Dictionary.erase es (.str refKey) := by
      unfold Dictionary.erase
      rw [List.filter_cons, isStr_eq_beq]
      cases k == .str refKey <;> rfl
    rw [hErase, expandEntries, Bool.true_and]
    split
    · exact ih
    · rw [expandEntries, ih, Bool.false_and, if_neg Bool.false_ne_true]

end Steps

-- ---------------------------------------------------------------------------
-- The memory
-- ---------------------------------------------------------------------------

/-- Expanded targets by reference. -/
abbrev Memory := Dictionary String Value

/-- What is remembered for a reference is an expansion of its target. -/
def Remembers (document : Value) (memory : Memory) : Prop :=
  ∀ ref expanded, memory.get? ref = some expanded →
    ∃ target w, resolve document ref = .ok target ∧ Expands document (some ref) ref target (.ok w) ∧
      expanded = withOrigin ref w

theorem Remembers.put {memory : Memory} {ref : String} {target w : Value}
    (h : Remembers document memory) (hTarget : resolve document ref = .ok target)
    (hExpands : Expands document (some ref) ref target (.ok w)) :
    Remembers document (memory.put ref (withOrigin ref w)) := by
  intro ref' expanded hGet
  by_cases hSame : ref = ref'
  · subst hSame
    rw [Dictionary.get?_put_self] at hGet
    cases hGet
    exact ⟨target, w, hTarget, hExpands, rfl⟩
  · rw [Dictionary.get?_put_of_ne hSame] at hGet
    exact h ref' expanded hGet

/-- The outcome is as wanted, and a run that succeeds leaves a sound memory. -/
def Follows {α : Type} (document : Value) (P : Except Fault α → Prop) :
    Except Fault (α × Memory) → Prop
  | .ok (a, memory) => P (.ok a) ∧ Remembers document memory
  | .error fault => P (.error fault)

section Follows

variable {α β : Type} {P : Except Fault α → Prop} {Q : Except Fault β → Prop} {memory : Memory}

theorem Follows.pure {a : α} (h : P (.ok a)) (hMemory : Remembers document memory) :
    Follows document P ((Pure.pure a : Expansion α).run memory).outcome :=
  ⟨h, hMemory⟩

/-- A step that follows the rules and faults in the ways wanted goes before another step. -/
theorem Follows.bind {x : Expansion α} {f : α → Expansion β}
    (hx : Follows document P (x.run memory).outcome)
    (hError : ∀ fault, P (.error fault) → Q (.error fault))
    (hOk : ∀ a memory', P (.ok a) → Remembers document memory' →
      Follows document Q ((f a).run memory').outcome) :
    Follows document Q ((x >>= f).run memory).outcome := by
  rw [StateT.run_bind, Journal.outcome_bind]
  cases hRun : (x.run memory).outcome with
  | error fault =>
    rw [hRun] at hx
    exact hError fault hx
  | ok p =>
    rw [hRun] at hx
    exact hOk p.1 p.2 hx.1 hx.2

end Follows

-- ---------------------------------------------------------------------------
-- Expansion follows the rules
-- ---------------------------------------------------------------------------

/-- The references that are not available lead to the one whose target the value is in. -/
structure Underway (document : Value) (available : List String) (inside : Option String)
    (v : Value) : Prop where
  nodup : available.Nodup
  taken : ∀ outer, inside = some outer → outer ∉ available
  holds : ∀ outer, inside = some outer → ∀ ref ∈ refsIn v, Refers document outer ref
  leads : ∀ ref ∈ refsIn document, ref ∉ available →
    ∃ outer, inside = some outer ∧ Relation.ReflTransGen (Refers document) ref outer

section Underway

variable {available : List String} {inside : Option String} {v w : Value} {ref : String}

theorem Underway.of_within (h : Underway document available inside w) (hWithin : Within v w) :
    Underway document available inside v :=
  { h with
    holds := fun outer hInside ref hRef => h.holds outer hInside ref (hWithin.refsIn_subset hRef) }

/-- While a reference is expanded it leads to itself, and what leads to the one around it
leads to it as well. -/
theorem Underway.target {target : Value} (h : Underway document available inside v)
    (hRef : ref ∈ refsIn v) (hTarget : resolve document ref = .ok target) :
    Underway document (available.erase ref) (some ref) target where
  nodup := h.nodup.erase ref
  taken := by
    rintro _ ⟨⟩
    exact fun hMem => (h.nodup.mem_erase_iff.mp hMem).1 rfl
  holds := by
    rintro _ ⟨⟩ inner hInner
    exact refers_of_mem hTarget hInner
  leads := by
    intro outer hOuter hTaken
    refine ⟨ref, rfl, ?_⟩
    by_cases hSame : outer = ref
    · rw [hSame]
    · rw [List.mem_erase_of_ne hSame] at hTaken
      obtain ⟨middle, hInside, hPath⟩ := h.leads outer hOuter hTaken
      exact hPath.tail (h.holds middle hInside ref hRef)

/-- A reference that is not available is on a cycle. -/
theorem Underway.recurs (h : Underway document available inside v) (hRef : ref ∈ refsIn v)
    (hDocument : ref ∈ refsIn document) (hTaken : ref ∉ available) :
    Recurs document inside ref := by
  obtain ⟨outer, hInside, hPath⟩ := h.leads ref hDocument hTaken
  exact ⟨outer, hInside, h.holds outer hInside ref hRef, hPath⟩

theorem Underway.outside (h : Underway document available inside v) (hHere : ref ∈ available) :
    inside ≠ some ref :=
  fun hInside => h.taken ref hInside hHere

end Underway

theorem entriesDepth_filter_le (p : Value × Value → Bool) (entries : Entries) :
    Value.entriesDepth (entries.filter p) ≤ Value.entriesDepth entries := by
  induction entries with
  | nil => simp
  | cons e es ih =>
    rw [List.filter_cons, Value.entriesDepth]
    split
    · rw [Value.entriesDepth]
      omega
    · omega

theorem openRef_mem_refsIn {entries : Entries} {ref : String}
    (h : openRef? (.map entries) = some ref) : ref ∈ refsIn (.map entries) :=
  mem_refsIn_map.mpr (Or.inl h)

mutual

/-- Expanding a value follows the rules, whatever is remembered and available. -/
theorem expandValue_follows (available : List String) (inside : Option String) (place : String)
    (v : Value) {memory : Memory} (hWithin : Within v document)
    (hUnder : Underway document available inside v) (hMemory : Remembers document memory) :
    Follows document (Expands document inside place v)
      ((expandValue document available place v).run memory).outcome := by
  match v with
  | .list items =>
    rw [expandValue]
    refine Follows.bind (expandItems_follows available inside place 0 items ?_ ?_ hMemory) ?_ ?_
    · exact fun v hMem => hWithin.of_item hMem
    · exact fun v hMem => hUnder.of_within (Within.refl _ |>.of_item hMem)
    · exact fun _ h => .list h
    · exact fun _ _ h hMemory' => Follows.pure (.list h) hMemory'
  | .map entries =>
    cases hRef : openRef? (.map entries) with
    | none =>
      rw [expandValue_map hRef]
      refine Follows.bind (expandEntries_follows available inside place entries ?_ ?_ hMemory) ?_ ?_
      · exact fun _ hMem => hWithin.of_entry hMem
      · exact fun _ hMem => hUnder.of_within ((Within.refl _).of_entry hMem)
      · exact fun _ h => .map hRef h
      · exact fun _ _ h hMemory' => Follows.pure (.map hRef h) hMemory'
    | some ref =>
      rw [expandValue_ref hRef, expandEntries_siblings]
      refine Follows.bind (expandEntries_follows available inside place
        (Dictionary.erase entries (.str refKey)) ?_ ?_ hMemory) (fun _ h => .siblings hRef h) ?_
      · exact fun _ => hWithin.of_sibling
      · exact fun _ hMem => hUnder.of_within ((Within.refl _).of_sibling hMem)
      · intro siblings memory' hSiblings hMemory'
        by_cases hHere : ref ∈ available
        · have hOutside := hUnder.outside hHere
          simp only [if_pos hHere]
          rw [StateT.run_bind, StateT.run_get, pure_bind]
          dsimp only
          cases hGet : memory'.get? ref with
          | some expanded =>
            obtain ⟨target, w, hTarget, hExpands, rfl⟩ := hMemory' ref expanded hGet
            exact Follows.pure (.target hRef hOutside hSiblings hTarget hExpands) hMemory'
          | none =>
            cases hTarget : resolve document ref with
            | error fault =>
              cases hSchema : ref.startsWith schemaPointer with
              | true =>
                have hMissing : MissingSchema document ref := ⟨hSchema, fault, hTarget⟩
                exact Follows.pure (.leave hRef hSiblings (Or.inl hMissing)) hMemory'
              | false => exact Expands.dangling hRef hSiblings hTarget hSchema
            | ok target =>
              refine Follows.bind (expandValue_follows (available.erase ref) (some ref) ref target
                ?_ ?_ hMemory') ?_ ?_
              · exact resolve_within hTarget
              · exact hUnder.target (openRef_mem_refsIn hRef) hTarget
              · exact fun _ h => .target hRef hOutside hSiblings hTarget h
              · intro w memory'' hExpands hMemory''
                exact ⟨.target hRef hOutside hSiblings hTarget hExpands,
                  hMemory''.put hTarget hExpands⟩
        · simp only [if_neg hHere]
          have hMem := openRef_mem_refsIn hRef
          have hRecurs := hUnder.recurs hMem (hWithin.refsIn_subset hMem) hHere
          exact Follows.pure (.leave hRef hSiblings (Or.inr hRecurs)) hMemory'
  | .null | .bool _ | .int _ | .float _ | .str _ | .date _ | .moment _ | .bytes _ | .set _ =>
    rw [expandValue] <;> first
      | exact Follows.pure (.scalar (by simp) (by simp)) hMemory
      | simp
termination_by (available.length, v.depth, 0)
decreasing_by
  · simp only [Value.depth, Prod.lex_def, true_and]
    omega
  · simp only [Value.depth, Prod.lex_def, true_and]
    omega
  · have := entriesDepth_filter_le (fun e => !(e.1 == Value.str refKey)) entries
    simp only [Value.depth, Dictionary.erase, Prod.lex_def, true_and]
    omega
  · apply Prod.Lex.left
    rw [List.length_erase_of_mem hHere]
    have := List.length_pos_of_mem hHere
    omega

theorem expandItems_follows (available : List String) (inside : Option String) (place : String)
    (index : Nat) (items : List Value) {memory : Memory} (hWithin : ∀ v ∈ items, Within v document)
    (hUnder : ∀ v ∈ items, Underway document available inside v)
    (hMemory : Remembers document memory) :
    Follows document (ItemsExpand document inside place index items)
      ((expandItems document available place index items).run memory).outcome := by
  match items with
  | [] =>
    rw [expandItems]
    exact Follows.pure .nil hMemory
  | v :: vs =>
    rw [expandItems]
    refine Follows.bind (expandValue_follows available inside _ v ?_ ?_ hMemory) ?_ ?_
    · exact hWithin v List.mem_cons_self
    · exact hUnder v List.mem_cons_self
    · exact fun _ h => .fail h
    · intro w memory' hHead hMemory'
      refine Follows.bind (expandItems_follows available inside place (index + 1) vs ?_ ?_ hMemory')
        ?_ ?_
      · exact fun u hMem => hWithin u (List.mem_cons_of_mem _ hMem)
      · exact fun u hMem => hUnder u (List.mem_cons_of_mem _ hMem)
      · exact fun _ h => .cons hHead h
      · exact fun _ _ h hMemory'' => Follows.pure (.cons hHead h) hMemory''
termination_by (available.length, Value.itemsDepth items, items.length + 1)
decreasing_by all_goals simp only [Value.itemsDepth, Prod.lex_def, List.length_cons, true_and]; omega

theorem expandEntries_follows (available : List String) (inside : Option String) (place : String)
    (entries : Entries) {memory : Memory} (hWithin : ∀ e ∈ entries, Within e.2 document)
    (hUnder : ∀ e ∈ entries, Underway document available inside e.2)
    (hMemory : Remembers document memory) :
    Follows document (EntriesExpand document inside place entries)
      ((expandEntries document available place false entries).run memory).outcome := by
  match entries with
  | [] =>
    rw [expandEntries]
    exact Follows.pure .nil hMemory
  | (k, v) :: es =>
    rw [expandEntries, Bool.false_and, if_neg Bool.false_ne_true]
    refine Follows.bind (expandValue_follows available inside _ v ?_ ?_ hMemory) ?_ ?_
    · exact hWithin (k, v) List.mem_cons_self
    · exact hUnder (k, v) List.mem_cons_self
    · exact fun _ h => .fail h
    · intro w memory' hHead hMemory'
      refine Follows.bind (expandEntries_follows available inside place es ?_ ?_ hMemory') ?_ ?_
      · exact fun e hMem => hWithin e (List.mem_cons_of_mem _ hMem)
      · exact fun e hMem => hUnder e (List.mem_cons_of_mem _ hMem)
      · exact fun _ h => .cons hHead h
      · exact fun _ _ h hMemory'' => Follows.pure (.cons hHead h) hMemory''
termination_by (available.length, Value.entriesDepth entries, entries.length + 1)
decreasing_by all_goals simp only [Value.entriesDepth, Prod.lex_def, List.length_cons, true_and]; omega

end

/-- **Expansion follows the rules.** -/
theorem expand_follows (document : Value) :
    Expands document none "#" document (expand document).outcome := by
  have hUnder : Underway document (refsIn document).eraseDups none document :=
    { nodup := nodup_eraseDups _
      taken := nofun
      holds := nofun
      leads := fun _ hOuter hTaken => absurd (List.mem_eraseDups.mpr hOuter) hTaken }
  have hMemory : Remembers document [] := by
    intro _ _ hGet
    cases hGet
  have hRun := expandValue_follows (refsIn document).eraseDups none "#" document (.refl document)
    hUnder hMemory
  rw [expand, Journal.outcome_bind]
  cases hOutcome : ((expandValue document (refsIn document).eraseDups "#" document).run []).outcome with
  | error fault =>
    rw [hOutcome] at hRun
    exact hRun
  | ok p =>
    rw [hOutcome] at hRun
    exact hRun.1

-- ---------------------------------------------------------------------------
-- Faults
-- ---------------------------------------------------------------------------

/-- The reference leads nowhere, and not to a missing component schema either. -/
def Dangling (document : Value) (ref : String) : Prop :=
  ref.startsWith schemaPointer = false ∧ ∃ fault, resolve document ref = .error fault

/-- The fault names a dangling reference of the document. -/
def NamesDangling (document : Value) (fault : Fault) : Prop :=
  ∃ ref ∈ refsIn document, ∃ place, fault = .unresolved ref place ∧ Dangling document ref

mutual

/-- Expanding a part of the document fails only at a dangling reference, which the fault names. -/
theorem Expands.namesDangling {inside : Option String} {place : String} {v : Value}
    {o : Except Fault Value} {fault : Fault} :
    Expands document inside place v o → Within v document → o = .error fault →
      NamesDangling document fault
  | .scalar _ _, _, hFault => by cases hFault
  | .list hItems, hWithin, hFault =>
    hItems.namesDangling (fun _ => hWithin.of_item) (error_of_map_error hFault)
  | .map _ hEntries, hWithin, hFault =>
    hEntries.namesDangling (fun _ => hWithin.of_entry) (error_of_map_error hFault)
  | .siblings _ hSiblings, hWithin, hFault =>
    hSiblings.namesDangling (fun _ => hWithin.of_sibling) (congrArg _ (Except.error.inj hFault))
  | .target _ _ _ hTarget h, _, hFault =>
    h.namesDangling (resolve_within hTarget) (error_of_map_error hFault)
  | .leave _ _ _, _, hFault => by cases hFault
  | .dangling hRef _ hTarget hOther, hWithin, hFault => by
    cases hFault
    exact ⟨_, hWithin.refsIn_subset (openRef_mem_refsIn hRef), _, rfl, hOther, _, hTarget⟩

theorem ItemsExpand.namesDangling {inside : Option String} {place : String} {index : Nat}
    {items : List Value} {o : Except Fault (List Value)} {fault : Fault} :
    ItemsExpand document inside place index items o → (∀ v ∈ items, Within v document) →
      o = .error fault → NamesDangling document fault
  | .nil, _, hFault => by cases hFault
  | .fail head, hWithin, hFault =>
    head.namesDangling (List.forall_mem_cons.mp hWithin).1 (congrArg _ (Except.error.inj hFault))
  | .cons _ rest, hWithin, hFault =>
    rest.namesDangling (List.forall_mem_cons.mp hWithin).2 (error_of_map_error hFault)

theorem EntriesExpand.namesDangling {inside : Option String} {place : String} {entries : Entries}
    {o : Except Fault Entries} {fault : Fault} :
    EntriesExpand document inside place entries o → (∀ e ∈ entries, Within e.2 document) →
      o = .error fault → NamesDangling document fault
  | .nil, _, hFault => by cases hFault
  | .fail head, hWithin, hFault =>
    head.namesDangling (List.forall_mem_cons.mp hWithin).1 (congrArg _ (Except.error.inj hFault))
  | .cons _ rest, hWithin, hFault =>
    rest.namesDangling (List.forall_mem_cons.mp hWithin).2 (error_of_map_error hFault)

end

/-- A document without dangling references can be expanded. -/
theorem exists_expand_ok (h : ∀ ref ∈ refsIn document, ¬ Dangling document ref) :
    ∃ expanded, (expand document).outcome = .ok expanded := by
  cases hOutcome : (expand document).outcome with
  | ok expanded => exact ⟨expanded, rfl⟩
  | error fault =>
    obtain ⟨ref, hMem, -, -, hDangling⟩ :=
      (expand_follows document).namesDangling (.refl document) hOutcome
    exact absurd hDangling (h ref hMem)

theorem not_dangling_of_resolve {ref : String} {target : Value}
    (hTarget : resolve document ref = .ok target) : ¬ Dangling document ref := by
  rintro ⟨-, fault, hFault⟩
  rw [hTarget] at hFault
  cases hFault

/-- The references inside a reference, itself aside, are those inside its siblings. -/
theorem not_dangling_of_siblings {entries : Entries} {ref : String}
    (hKeyed : (Value.map entries).wellKeyed = true) (hRef : openRef? (.map entries) = some ref)
    (hSelf : ¬ Dangling document ref)
    (hSiblings : ∀ e ∈ Dictionary.erase entries (.str refKey), ∀ ref' ∈ refsIn e.2,
      ¬ Dangling document ref') :
    ∀ ref' ∈ refsIn (.map entries), ¬ Dangling document ref' := by
  intro ref' hMem
  obtain hOwn | ⟨e, he, hMem⟩ := mem_refsIn_map.mp hMem
  · rw [hRef] at hOwn
    exact Option.some.inj hOwn ▸ hSelf
  · by_cases hKey : (e.1 == .str refKey) = true
    · -- the pointer is a text, and there are no references inside a text
      have hKey := Value.beq_str.mp hKey
      have hFound := Dictionary.get?_of_mem (Value.wellKeyed_map.mp hKeyed).1 he
        (by rw [hKey]; exact Value.beq_str.mpr rfl)
      rw [hKey] at hFound
      rw [openRef?_map, hFound] at hRef
      rw [Option.some.inj hRef] at hMem
      simp [refsIn] at hMem
    · rw [Bool.not_eq_true] at hKey
      exact hSiblings e (List.mem_filter.mpr ⟨he, by rw [hKey]; rfl⟩) ref' hMem

mutual

/-- Whatever was expanded had no dangling reference in it. -/
theorem Expands.not_dangling (hKeyed : document.wellKeyed = true) {inside : Option String}
    {place : String} {v w : Value} {o : Except Fault Value} :
    Expands document inside place v o → Within v document → o = .ok w →
      ∀ ref ∈ refsIn v, ¬ Dangling document ref
  | .scalar hList hMap, _, _ => by
    intro ref hMem
    rw [refsIn] at hMem
    · cases hMem
    all_goals simpa
  | .list hItems, hWithin, hOk => by
    obtain ⟨ws, hDone, -⟩ := exists_of_map_ok hOk
    intro ref hMem
    obtain ⟨v, hv, hMem⟩ := mem_refsInItems.mp (by rwa [refsIn] at hMem)
    exact hItems.not_dangling hKeyed (fun _ => hWithin.of_item) hDone v hv ref hMem
  | .map hPlain hEntries, hWithin, hOk => by
    obtain ⟨es', hDone, -⟩ := exists_of_map_ok hOk
    intro ref hMem
    obtain hRef | ⟨e, he, hMem⟩ := mem_refsIn_map.mp hMem
    · rw [hPlain] at hRef
      cases hRef
    · exact hEntries.not_dangling hKeyed (fun _ => hWithin.of_entry) hDone e he ref hMem
  | .siblings _ _, _, hOk => by cases hOk
  | .target hRef _ hSiblings hTarget _, hWithin, _ =>
    not_dangling_of_siblings (hWithin.wellKeyed hKeyed) hRef (not_dangling_of_resolve hTarget)
      (hSiblings.not_dangling hKeyed (fun _ => hWithin.of_sibling) rfl)
  | .leave hRef hSiblings hOpen, hWithin, _ => by
    refine not_dangling_of_siblings (hWithin.wellKeyed hKeyed) hRef ?_
      (hSiblings.not_dangling hKeyed (fun _ => hWithin.of_sibling) rfl)
    rcases hOpen with ⟨hSchema, -⟩ | hRecurs
    · rintro ⟨hOther, -⟩
      rw [hSchema] at hOther
      cases hOther
    · obtain ⟨target, hTarget⟩ := hRecurs.onCycle.resolves
      exact not_dangling_of_resolve hTarget
  | .dangling _ _ _ _, _, hOk => by cases hOk

theorem ItemsExpand.not_dangling (hKeyed : document.wellKeyed = true) {inside : Option String}
    {place : String} {index : Nat} {items ws : List Value} {o : Except Fault (List Value)} :
    ItemsExpand document inside place index items o → (∀ v ∈ items, Within v document) →
      o = .ok ws → ∀ v ∈ items, ∀ ref ∈ refsIn v, ¬ Dangling document ref
  | .nil, _, _ => by simp
  | .fail _, _, hOk => by cases hOk
  | .cons head rest, hWithin, hOk => by
    obtain ⟨_, hDone, -⟩ := exists_of_map_ok hOk
    obtain ⟨hHead, hRest⟩ := List.forall_mem_cons.mp hWithin
    exact List.forall_mem_cons.mpr
      ⟨head.not_dangling hKeyed hHead rfl, rest.not_dangling hKeyed hRest hDone⟩

theorem EntriesExpand.not_dangling (hKeyed : document.wellKeyed = true) {inside : Option String}
    {place : String} {entries es' : Entries} {o : Except Fault Entries} :
    EntriesExpand document inside place entries o → (∀ e ∈ entries, Within e.2 document) →
      o = .ok es' → ∀ e ∈ entries, ∀ ref ∈ refsIn e.2, ¬ Dangling document ref
  | .nil, _, _ => by simp
  | .fail _, _, hOk => by cases hOk
  | .cons head rest, hWithin, hOk => by
    obtain ⟨_, hDone, -⟩ := exists_of_map_ok hOk
    obtain ⟨hHead, hRest⟩ := List.forall_mem_cons.mp hWithin
    exact List.forall_mem_cons.mpr
      ⟨head.not_dangling hKeyed hHead rfl, rest.not_dangling hKeyed hRest hDone⟩

end

/-- **When expansion succeeds.** A well keyed document can be expanded if it has no dangling
reference, and only then. -/
theorem exists_expand_ok_iff (hKeyed : document.wellKeyed = true) :
    (∃ expanded, (expand document).outcome = .ok expanded) ↔
      ∀ ref ∈ refsIn document, ¬ Dangling document ref := by
  refine ⟨?_, exists_expand_ok⟩
  rintro ⟨expanded, hExpanded⟩
  exact (expand_follows document).not_dangling hKeyed (.refl document) hExpanded

end ClientGen.Document
