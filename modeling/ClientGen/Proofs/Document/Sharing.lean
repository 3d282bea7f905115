import ClientGen.Proofs.Document.Members

/-!
# One expansion for each reference

The target of a reference is expanded once and kept. All later references to it draw
from the memory, whatever is being expanded around them, so they cannot disagree about
what the target is. The rules of expansion do not say this: on a cycle they leave open
where a reference is left in place, each time anew. Here the whole run is related to the
memory in which it ends. Outside of all targets a reference draws from this memory
unless it points to a missing schema; inside a target it may also be left in place,
since it may be on the way into itself.

Main results:

* `expand_draws` — what is expanded draws from one memory.
* `Leads.draws` — so does what stands at a place of the expanded document.
* `Draws.isMapping` — a reference to a node that becomes a mapping itself becomes one.
-/

namespace ClientGen.Document

open ClientGen.Schema ClientGen.Document.Value

variable {document : Value} {memory memory' memory'' : Memory} {available : List String}
  {nested : Bool}

-- ---------------------------------------------------------------------------
-- Drawing from a memory
-- ---------------------------------------------------------------------------

/-- What a value may become if references draw from the memory. -/
inductive Draws (document : Value) (memory : Memory) (nested : Bool) : Value → Value → Prop
  | other {v w : Value} (hBefore : v.isMapping = false) (hAfter : w.isMapping = false) :
      Draws document memory nested v w
  | map {entries es : Entries} (hPlain : openRef? (.map entries) = none)
      (hKeys : Dictionary.Alongside (fun _ _ _ => True) entries es)
      (hMembers : ∀ k v w, Dictionary.get? entries k = some v → Dictionary.get? es k = some w →
        Draws document memory nested v w) :
      Draws document memory nested (.map entries) (.map es)
  | target {entries siblings : Entries} {ref : String} {expanded : Value}
      (hRef : openRef? (.map entries) = some ref)
      (hKeys : Dictionary.Alongside (fun _ _ _ => True) (Dictionary.erase entries (.str refKey))
        siblings)
      (hMembers : ∀ k v w, Dictionary.get? (Dictionary.erase entries (.str refKey)) k = some v →
        Dictionary.get? siblings k = some w → Draws document memory nested v w)
      (hRemembered : memory.get? ref = some expanded) :
      Draws document memory nested (.map entries) (withSiblings siblings expanded)
  | leave {entries siblings : Entries} {ref : String} (hRef : openRef? (.map entries) = some ref)
      (hKeys : Dictionary.Alongside (fun _ _ _ => True) (Dictionary.erase entries (.str refKey))
        siblings)
      (hMembers : ∀ k v w, Dictionary.get? (Dictionary.erase entries (.str refKey)) k = some v →
        Dictionary.get? siblings k = some w → Draws document memory nested v w)
      (hOpen : nested = true ∨ MissingSchema document ref) :
      Draws document memory nested (.map entries) (openNode ref siblings)

/-- What is remembered for a reference is its target, expanded with the same memory. -/
def Shared (document : Value) (memory : Memory) : Prop :=
  ∀ ref expanded, memory.get? ref = some expanded →
    ∃ target w, resolve document ref = .ok target ∧ Draws document memory true target w ∧
      expanded = withOrigin ref w

/-- A memory takes over what another one remembers, and has more for available references only. -/
structure Extends (available : List String) (before after : Memory) : Prop where
  kept : ∀ ref expanded, before.get? ref = some expanded → after.get? ref = some expanded
  same : ∀ ref, ref ∉ available → after.get? ref = before.get? ref

theorem Extends.refl : Extends available memory memory := ⟨fun _ _ => id, fun _ _ => rfl⟩

theorem Extends.trans (h : Extends available memory memory')
    (h' : Extends available memory' memory'') : Extends available memory memory'' :=
  ⟨fun ref expanded hGet => h'.kept ref expanded (h.kept ref expanded hGet),
    fun ref hTaken => (h'.same ref hTaken).trans (h.same ref hTaken)⟩

/-- With more in the memory a value may become what it could before. -/
theorem Draws.mono {v w : Value} (h : Draws document memory nested v w)
    (hExtends : Extends available memory memory') : Draws document memory' nested v w := by
  induction h with
  | other hBefore hAfter => exact .other hBefore hAfter
  | map hPlain hKeys _ ih => exact .map hPlain hKeys ih
  | target hRef hKeys _ hRemembered ih => exact .target hRef hKeys ih (hExtends.kept _ _ hRemembered)
  | leave hRef hKeys _ hOpen ih => exact .leave hRef hKeys ih hOpen

/-- The expanded target of a reference that was available is put into the memory. -/
theorem Shared.put {ref : String} {target w : Value} (hShared : Shared document memory')
    (hExtends : Extends (available.erase ref) memory memory') (hNodup : available.Nodup)
    (hHere : ref ∈ available) (hNone : memory.get? ref = none)
    (hTarget : resolve document ref = .ok target) (hDraws : Draws document memory' true target w) :
    Extends available memory (memory'.put ref (withOrigin ref w)) ∧
      Shared document (memory'.put ref (withOrigin ref w)) := by
  have hNew : memory'.get? ref = none :=
    (hExtends.same ref fun hMem => (hNodup.mem_erase_iff.mp hMem).1 rfl).trans hNone
  have hPut : Extends available memory' (memory'.put ref (withOrigin ref w)) := by
    refine ⟨fun ref' expanded hGet => ?_, fun ref' hTaken => ?_⟩
    · rw [Dictionary.get?_put_of_ne, hGet]
      rintro rfl
      rw [hNew] at hGet
      cases hGet
    · exact Dictionary.get?_put_of_ne fun hSame => hTaken (hSame ▸ hHere)
  refine ⟨.trans ⟨hExtends.kept, fun ref' hTaken => hExtends.same ref' ?_⟩ hPut, ?_⟩
  · exact fun hMem => hTaken (List.mem_of_mem_erase hMem)
  · intro ref' expanded hGet
    by_cases hSame : ref = ref'
    · subst hSame
      rw [Dictionary.get?_put_self] at hGet
      cases hGet
      exact ⟨target, w, hTarget, hDraws.mono hPut, rfl⟩
    · rw [Dictionary.get?_put_of_ne hSame] at hGet
      obtain ⟨target', w', hTarget', hDraws', rfl⟩ := hShared ref' expanded hGet
      exact ⟨target', w', hTarget', hDraws'.mono hPut, rfl⟩

-- ---------------------------------------------------------------------------
-- Runs
-- ---------------------------------------------------------------------------

/-- A run that succeeds extends the memory it started with, and its result is as wanted with regard
to the memory in which it ends. -/
def Gathers {α : Type} (document : Value) (available : List String) (memory : Memory)
    (P : Memory → α → Prop) : Except Fault (α × Memory) → Prop
  | .ok (a, memory') => Extends available memory memory' ∧ Shared document memory' ∧ P memory' a
  | .error _ => True

section Gathers

variable {α β : Type} {P : Memory → α → Prop} {Q : Memory → β → Prop}

theorem Gathers.pure {a : α} (hShared : Shared document memory) (h : P memory a) :
    Gathers document available memory P ((Pure.pure a : Expansion α).run memory).outcome :=
  ⟨.refl, hShared, h⟩

theorem Gathers.bind {x : Expansion α} {f : α → Expansion β}
    (hx : Gathers document available memory P (x.run memory).outcome)
    (hf : ∀ a memory', Extends available memory memory' → Shared document memory' → P memory' a →
      Gathers document available memory' Q ((f a).run memory').outcome) :
    Gathers document available memory Q ((x >>= f).run memory).outcome := by
  rw [StateT.run_bind, Journal.outcome_bind]
  cases hRun : (x.run memory).outcome with
  | error fault => trivial
  | ok p =>
    obtain ⟨a, memory'⟩ := p
    rw [hRun] at hx
    obtain ⟨hExtends, hShared, ha⟩ := hx
    have hRest := hf a memory' hExtends hShared ha
    rw [ok_bind]
    cases hEnd : ((f a).run memory').outcome with
    | error fault => trivial
    | ok q =>
      rw [hEnd] at hRest
      exact ⟨hExtends.trans hRest.1, hRest.2⟩

end Gathers

/-- Entries become entries with the same keys, value by value. -/
def EntriesDraw (document : Value) (nested : Bool) (entries : Entries) (memory : Memory)
    (es : Entries) : Prop :=
  Dictionary.Alongside (fun _ v w => Draws document memory nested v w) entries es

theorem EntriesDraw.keys {entries es : Entries} (h : EntriesDraw document nested entries memory es) :
    Dictionary.Alongside (fun _ _ _ => True) entries es :=
  List.Forall₂.imp (fun _ _ hBoth => ⟨hBoth.1, trivial⟩) h

theorem EntriesDraw.members {entries es : Entries}
    (h : EntriesDraw document nested entries memory es) (k v w : Value)
    (hBefore : Dictionary.get? entries k = some v) (hAfter : Dictionary.get? es k = some w) :
    Draws document memory nested v w := by
  obtain ⟨-, w', -, hFound, hDraws⟩ := Dictionary.Alongside.get?_some h hBefore
  cases hFound.symm.trans hAfter
  exact hDraws

mutual

/-- Expanding a value draws from the memory. Outside of all targets every reference is available. -/
theorem expandValue_draws (available : List String) (nested : Bool) (place : String) (v : Value)
    {memory : Memory} (hNodup : available.Nodup)
    (hAll : nested = false → ∀ ref ∈ refsIn v, ref ∈ available) (hShared : Shared document memory) :
    Gathers document available memory (fun memory' => Draws document memory' nested v)
      ((expandValue document available place v).run memory).outcome := by
  match v with
  | .list items =>
    rw [expandValue]
    refine Gathers.bind (expandItems_gathers available nested place 0 items hNodup ?_ hShared) ?_
    · exact fun hOutside v hMem ref hRef =>
        hAll hOutside ref (((Within.refl _).of_item hMem).refsIn_subset hRef)
    · exact fun _ _ _ hShared' _ => Gathers.pure hShared' (.other rfl rfl)
  | .map entries =>
    cases hRef : openRef? (.map entries) with
    | none =>
      rw [expandValue_map hRef]
      refine Gathers.bind (expandEntries_gathers available nested place entries hNodup ?_ hShared) ?_
      · exact fun hOutside e hMem ref hRef =>
          hAll hOutside ref (((Within.refl _).of_entry hMem).refsIn_subset hRef)
      · exact fun _ _ _ hShared' hEntries =>
          Gathers.pure hShared' (.map hRef hEntries.keys hEntries.members)
    | some ref =>
      rw [expandValue_ref hRef, expandEntries_siblings]
      refine Gathers.bind (expandEntries_gathers available nested place
        (Dictionary.erase entries (.str refKey)) hNodup ?_ hShared) ?_
      · exact fun hOutside e hMem ref hRef =>
          hAll hOutside ref (((Within.refl _).of_sibling hMem).refsIn_subset hRef)
      · intro siblings memory' _ hShared' hSiblings
        by_cases hHere : ref ∈ available
        · simp only [if_pos hHere]
          rw [StateT.run_bind, StateT.run_get, pure_bind]
          dsimp only
          cases hGet : memory'.get? ref with
          | some expanded =>
            exact Gathers.pure hShared' (.target hRef hSiblings.keys hSiblings.members hGet)
          | none =>
            cases hTarget : resolve document ref with
            | error fault =>
              cases hSchema : ref.startsWith schemaPointer with
              | true =>
                have hMissing : MissingSchema document ref := ⟨hSchema, fault, hTarget⟩
                exact Gathers.pure hShared'
                  (.leave hRef hSiblings.keys hSiblings.members (Or.inr hMissing))
              | false => trivial
            | ok target =>
              have hRun := expandValue_draws (available.erase ref) true ref target
                (hNodup.erase ref) nofun hShared'
              dsimp only
              rw [StateT.run_bind, Journal.outcome_bind]
              cases hOutcome : ((expandValue document (available.erase ref) ref target).run
                  memory').outcome with
              | error fault => trivial
              | ok p =>
                obtain ⟨w, memory''⟩ := p
                rw [hOutcome] at hRun
                obtain ⟨hExtends, hShared'', hDraws⟩ := hRun
                obtain ⟨hPut, hSharedPut⟩ :=
                  hShared''.put hExtends hNodup hHere hGet hTarget hDraws
                refine ⟨hPut, hSharedPut, .target hRef hSiblings.keys ?_
                  (Dictionary.get?_put_self _ _ _)⟩
                exact fun k v w hBefore hAfter => (hSiblings.members k v w hBefore hAfter).mono hPut
        · simp only [if_neg hHere]
          have hNested : nested = true := by
            cases nested with
            | true => rfl
            | false => exact absurd (hAll rfl ref (openRef_mem_refsIn hRef)) hHere
          exact Gathers.pure hShared' (.leave hRef hSiblings.keys hSiblings.members (Or.inl hNested))
  | .null | .bool _ | .int _ | .float _ | .str _ | .date _ | .moment _ | .bytes _ | .set _ =>
    rw [expandValue] <;> first
      | exact Gathers.pure hShared (.other rfl rfl)
      | simp
termination_by (available.length, v.depth, 0)
decreasing_by
  · simp only [Value.depth, Prod.lex_def, true_and]
    omega
  · simp only [Value.depth, Prod.lex_def, true_and]
    omega
  · have := entriesDepth_filter_le (fun e => !(e.1 == Value.str refKey)) entries
    simp only [Value.depth, Dictionary.erase, Prod.lex_def, true_and]
    omega
  · apply Prod.Lex.left
    rw [List.length_erase_of_mem hHere]
    have := List.length_pos_of_mem hHere
    omega

theorem expandItems_gathers (available : List String) (nested : Bool) (place : String) (index : Nat)
    (items : List Value) {memory : Memory} (hNodup : available.Nodup)
    (hAll : nested = false → ∀ v ∈ items, ∀ ref ∈ refsIn v, ref ∈ available)
    (hShared : Shared document memory) :
    Gathers document available memory (fun _ _ => True)
      ((expandItems document available place index items).run memory).outcome := by
  match items with
  | [] =>
    rw [expandItems]
    exact Gathers.pure hShared trivial
  | v :: vs =>
    rw [expandItems]
    refine Gathers.bind (expandValue_draws available nested _ v hNodup ?_ hShared) ?_
    · exact fun hOutside => hAll hOutside v List.mem_cons_self
    · intro w memory' _ hShared' _
      refine Gathers.bind (expandItems_gathers available nested place (index + 1) vs hNodup ?_
        hShared') ?_
      · exact fun hOutside u hMem => hAll hOutside u (List.mem_cons_of_mem _ hMem)
      · exact fun _ _ _ hShared'' _ => Gathers.pure hShared'' trivial
termination_by (available.length, Value.itemsDepth items, items.length + 1)
decreasing_by all_goals simp only [Value.itemsDepth, Prod.lex_def, List.length_cons, true_and]; omega

theorem expandEntries_gathers (available : List String) (nested : Bool) (place : String)
    (entries : Entries) {memory : Memory} (hNodup : available.Nodup)
    (hAll : nested = false → ∀ e ∈ entries, ∀ ref ∈ refsIn e.2, ref ∈ available)
    (hShared : Shared document memory) :
    Gathers document available memory (EntriesDraw document nested entries)
      ((expandEntries document available place false entries).run memory).outcome := by
  match entries with
  | [] =>
    rw [expandEntries]
    exact Gathers.pure hShared .nil
  | (k, v) :: es =>
    rw [expandEntries, Bool.false_and, if_neg Bool.false_ne_true]
    refine Gathers.bind (expandValue_draws available nested _ v hNodup ?_ hShared) ?_
    · exact fun hOutside => hAll hOutside (k, v) List.mem_cons_self
    · intro w memory' _ hShared' hHead
      refine Gathers.bind (expandEntries_gathers available nested place es hNodup ?_ hShared') ?_
      · exact fun hOutside e hMem => hAll hOutside e (List.mem_cons_of_mem _ hMem)
      · intro rest memory'' hExtends hShared'' hRest
        exact Gathers.pure hShared'' (.cons ⟨rfl, hHead.mono hExtends⟩ hRest)
termination_by (available.length, Value.entriesDepth entries, entries.length + 1)
decreasing_by all_goals simp only [Value.entriesDepth, Prod.lex_def, List.length_cons, true_and]; omega

end

/-- **What is expanded draws from one memory.** -/
theorem expand_draws {expanded : Value} (h : (expand document).outcome = .ok expanded) :
    ∃ memory, Shared document memory ∧ Draws document memory false document expanded := by
  have hEmpty : Shared document [] := nofun
  have hRun := expandValue_draws (refsIn document).eraseDups false "#" document (nodup_eraseDups _)
    (fun _ _ => List.mem_eraseDups.mpr) hEmpty
  rw [expand, Journal.outcome_bind] at h
  cases hOutcome : ((expandValue document (refsIn document).eraseDups "#" document).run []).outcome with
  | error fault =>
    rw [hOutcome] at h
    cases h
  | ok p =>
    rw [hOutcome] at h hRun
    cases h
    exact ⟨p.2, hRun.2⟩

-- ---------------------------------------------------------------------------
-- Places of the expanded document
-- ---------------------------------------------------------------------------

/-- What stands at a key that is not the one of the reference is the member, expanded. -/
theorem Draws.member {entries : Entries} {k v w s : Value} {keys : List Value}
    (h : Draws document memory nested (.map entries) w) (hDistinct : Dictionary.Distinct entries)
    (hSteady : Steady k) (hMember : Dictionary.get? entries k = some v)
    (hKey : openRef? (.map entries) = none ∨ k ≠ .str refKey) (hPlace : w.at? (k :: keys) = some s) :
    ∃ w', Draws document memory nested v w' ∧ w'.at? keys = some s := by
  have hSibling : ∀ {ref : String}, openRef? (.map entries) = some ref →
      Dictionary.get? (Dictionary.erase entries (.str refKey)) k = some v := by
    intro ref hRef
    obtain hPlain | hOther := hKey
    · rw [hPlain] at hRef
      cases hRef
    · rw [get?_erase_of_ne hOther, hMember]
  have hApart : Dictionary.Distinct (Dictionary.erase entries (.str refKey)) :=
    hDistinct.sublist List.filter_sublist
  cases h with
  | other hBefore => cases hBefore
  | @map _ es hPlain hKeys hMembers =>
    obtain ⟨-, w', -, hFound, -⟩ := hKeys.get?_some hMember
    exact ⟨w', hMembers k v w' hMember hFound, (at?_map hFound).mp hPlace⟩
  | @target _ siblings ref _ hRef hKeys hMembers _ =>
    obtain ⟨-, w', -, hFound, -⟩ := hKeys.get?_some (hSibling hRef)
    exact ⟨w', hMembers k v w' (hSibling hRef) hFound,
      at?_withSiblings_of_some hSteady (Dictionary.Alongside.distinct hKeys hApart) hFound hPlace⟩
  | @leave _ siblings ref hRef hKeys hMembers _ =>
    obtain ⟨-, w', -, hFound, -⟩ := hKeys.get?_some (hSibling hRef)
    rw [openNode_eq] at hPlace
    exact ⟨w', hMembers k v w' (hSibling hRef) hFound,
      at?_withSiblings_of_some hSteady (Dictionary.Alongside.distinct hKeys hApart) hFound hPlace⟩

/-- What stands at a place is what the keys lead to, expanded inside a target or outside. -/
theorem Leads.draws (hKeyed : document.wellKeyed = true) (hShared : Shared document memory)
    {v n : Value} {keys : List Value} (h : Leads document v keys n)
    (hLast : keys.getLast? ≠ some (.str originKey)) (hSteady : ∀ k ∈ keys, Steady k)
    (hWithin : Within v document) {nested : Bool} {w s : Value}
    (hDraws : Draws document memory nested v w) (hPlace : w.at? keys = some s) :
    ∃ nested', Draws document memory nested' n s := by
  induction h generalizing nested w with
  | here =>
    cases hPlace
    exact ⟨nested, hDraws⟩
  | member hPlain hMember _ ih =>
    obtain ⟨hHead, hRest⟩ := List.forall_mem_cons.mp hSteady
    obtain ⟨w', hDraws', hPlace'⟩ := hDraws.member (wellKeyed_map.mp (hWithin.wellKeyed hKeyed)).1
      hHead hMember (Or.inl hPlain) hPlace
    exact ih (getLast?_tail hLast) hRest (hWithin.of_get? hMember) hDraws' hPlace'
  | sibling _ hKey hMember _ ih =>
    obtain ⟨hHead, hRest⟩ := List.forall_mem_cons.mp hSteady
    obtain ⟨w', hDraws', hPlace'⟩ := hDraws.member (wellKeyed_map.mp (hWithin.wellKeyed hKeyed)).1
      hHead hMember (Or.inr hKey) hPlace
    exact ih (getLast?_tail hLast) hRest (hWithin.of_get? hMember) hDraws' hPlace'
  | @target entries ref target k n keys hRef hNone hTarget h ih =>
    have hHead := hSteady k List.mem_cons_self
    have hKey : k ≠ .str refKey := by
      rintro rfl
      rw [openRef?_map, hNone] at hRef
      cases hRef
    have hNoSibling : Dictionary.get? (Dictionary.erase entries (.str refKey)) k = none := by
      rw [get?_erase_of_ne hKey, hNone]
    cases hDraws with
    | other hBefore => cases hBefore
    | map hPlain =>
      rw [hPlain] at hRef
      cases hRef
    | target hRef' hKeys _ hRemembered =>
      cases hRef.symm.trans hRef'
      obtain ⟨target', x, hTarget', hDraws', rfl⟩ := hShared _ _ hRemembered
      cases hTarget.symm.trans hTarget'
      exact ih hLast hSteady (resolve_within hTarget) hDraws' (at?_withOrigin hHead hLast
        (at?_withSiblings_of_none hHead (hKeys.get?_none hNoSibling) hPlace))
    | leave hRef' hKeys =>
      rw [at?_openNode_of_none hHead hKey (hKeys.get?_none hNoSibling)] at hPlace
      cases hPlace

/-- What stands at the place of a mapping of the document is this mapping, expanded outside of all
targets if the whole is. -/
theorem Draws.at? (hKeyed : document.wellKeyed = true) {v n : Value} {keys : List Value}
    (hAt : v.at? keys = some n) (hMapping : n.isMapping = true) (hSteady : ∀ k ∈ keys, Steady k)
    (hWithin : Within v document) {w s : Value} (h : Draws document memory nested v w)
    (hPlace : w.at? keys = some s) : Draws document memory nested n s := by
  induction keys generalizing v w with
  | nil =>
    cases hAt
    cases hPlace
    exact h
  | cons k keys ih =>
    obtain ⟨entries, member, rfl, hMember, hAt⟩ := exists_of_at?_cons hAt
    obtain ⟨hHead, hRest⟩ := List.forall_mem_cons.mp hSteady
    have hKey : openRef? (.map entries) = none ∨ k ≠ .str refKey := by
      cases hRef : openRef? (.map entries) with
      | none => exact Or.inl rfl
      | some ref =>
        -- at the key of references stands a text, and there is no mapping below a text
        refine Or.inr ?_
        rintro rfl
        rw [openRef?_map.mp hRef] at hMember
        cases hMember
        cases keys with
        | nil =>
          cases hAt
          cases hMapping
        | cons _ _ => cases hAt
    obtain ⟨w', hDraws', hPlace'⟩ := h.member (wellKeyed_map.mp (hWithin.wellKeyed hKeyed)).1 hHead
      hMember hKey hPlace
    exact ih hAt hRest (hWithin.of_get? hMember) hDraws' hPlace'

-- ---------------------------------------------------------------------------
-- References to mappings
-- ---------------------------------------------------------------------------

/-- A reference that is not a mapping in the end has drawn a value that is none. -/
theorem Draws.exists_remembered {v w : Value} {ref : String} (h : Draws document memory nested v w)
    (hRef : openRef? v = some ref) (hOther : w.isMapping = false) :
    ∃ expanded, memory.get? ref = some expanded ∧ expanded.isMapping = false := by
  cases h with
  | other hBefore =>
    cases v with
    | map _ => cases hBefore
    | _ => cases hRef
  | map hPlain =>
    rw [hPlain] at hRef
    cases hRef
  | @target _ siblings ref' expanded hRef' _ _ hRemembered =>
    cases hRef.symm.trans hRef'
    refine ⟨expanded, hRemembered, ?_⟩
    cases expanded with
    | map _ => cases hOther
    | _ => rfl
  | leave => cases hOther

/-- **References agree with what they point to.** If a mapping of the document becomes a mapping
outside of all targets, so does every reference to it. -/
theorem Draws.isMapping (hShared : Shared document memory) {target own node schema : Value}
    {ref : String} (hTarget : resolve document ref = .ok target)
    (hMapping : target.isMapping = true) (hOwn : Draws document memory false target own)
    (hOwnMapping : own.isMapping = true) (hRef : openRef? node = some ref)
    (hNode : Draws document memory nested node schema) : schema.isMapping = true := by
  by_contra hOther
  obtain ⟨_, hRemembered, hExpanded⟩ :=
    hNode.exists_remembered hRef (Bool.not_eq_true _ ▸ hOther)
  obtain ⟨target', w, hTarget', hDraws, rfl⟩ := hShared _ _ hRemembered
  cases hTarget.symm.trans hTarget'
  have hNoMapping : w.isMapping = false := by
    cases w with
    | map _ => cases hExpanded
    | _ => rfl
  -- the target is a reference itself, and what it draws the mapping itself draws as well
  cases hDraws with
  | other hBefore =>
    rw [hBefore] at hMapping
    cases hMapping
  | map => cases hNoMapping
  | leave => cases hNoMapping
  | @target entries siblings inner expanded hInner _ _ hRemembered' =>
    cases hOwn with
    | other hBefore => cases hBefore
    | map hPlain =>
      rw [hPlain] at hInner
      cases hInner
    | target hInner' _ _ hRemembered'' =>
      cases hInner.symm.trans hInner'
      cases hRemembered'.symm.trans hRemembered''
      cases expanded with
      | map _ => cases hNoMapping
      | _ => cases hOwnMapping
    | leave hInner' _ _ hOpen =>
      cases hInner.symm.trans hInner'
      obtain hNested | ⟨-, fault, hMissing⟩ := hOpen
      · cases hNested
      · obtain ⟨_, _, hResolves, -⟩ := hShared _ _ hRemembered'
        rw [hMissing] at hResolves
        cases hResolves

end ClientGen.Document
