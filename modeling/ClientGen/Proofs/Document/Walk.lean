import ClientGen.Proofs.Document.Expansion

/-!
# Expansion step by step

Expansion is a recursion that jumps: the target of a reference may be anywhere in the
document, also around the reference. This module takes it apart into single steps. A walk
through the document is at one node at a time. It knows the nodes it came through, and it
keeps the references whose targets it is in on a stack, where the recursion is told which
references are left.

Each step keeps a walk in order. The stack holds just the references that it came through,
no reference twice, and from one of them to the next the walk only went down from nodes to
their members. So there are never more references on the stack than the document has, and
between two of them no more nodes than the document is deep. That the walk gets to an end
follows along the recursion, which has the same outcome.

Main results:

* `Orderly.step` — each step keeps a walk in order.
* `visit_finishes` — the walk gets back from each node, with the outcome of the recursion.
* `walk_ends` — what holds at each moment, and that the walk ends with an empty stack.
-/

namespace ClientGen.Document

open ClientGen.Schema

-- ---------------------------------------------------------------------------
-- Walks
-- ---------------------------------------------------------------------------

/-- What a walk does at its node. -/
inductive Task where
  | visit
  /-- items from an index on, with the expanded ones before -/
  | items (index : Nat) (rest done : List Value)
  | entries (rest done : Entries)
  | back (outcome : Except Fault Value)

/-- What a node waits for while the walk is elsewhere, with what there is to do then. -/
inductive Waiting where
  | item (index : Nat) (rest done : List Value)
  | entry (key : Value) (rest done : Entries)
  | target (ref : String) (siblings : Entries)

/-- The reference whose target is waited for. -/
def Waiting.ref? : Waiting → Option String
  | .target ref _ => some ref
  | _ => none

/-- What a node goes on with when it was waiting for a value. -/
def Waiting.next : Waiting → Value → Task
  | .item index rest done, v => .items (index + 1) rest (done ++ [v])
  | .entry key rest done, v => .entries rest (done ++ [(key, v)])
  | .target ref siblings, v => .back (.ok (withSiblings siblings (withOrigin ref v)))

/-- A node that the walk came through. -/
structure Caller where
  place : String
  node : Value
  waiting : Waiting

/-- A walk through a document. The caller that the walk gets back to first comes first, and so does
the last reference that was put on the stack. -/
structure Walk where
  place : String
  node : Value
  task : Task
  callers : List Caller
  stack : List String
  memory : Memory

namespace Walk

/-- The walk before its first step. -/
def start (document : Value) : Walk := ⟨"#", document, .visit, [], [], []⟩

/-- Look at the node. Of a reference the siblings come first. -/
def enter (w : Walk) : Walk :=
  match w.node with
  | .list items => { w with task := .items 0 items [] }
  | .map entries =>
    match openRef? (.map entries) with
    | some _ => { w with task := .entries (Dictionary.erase entries (.str refKey)) [] }
    | none => { w with task := .entries entries [] }
  | v => { w with task := .back (.ok v) }

/-- Go to another node and leave this one waiting. -/
def goTo (w : Walk) (waiting : Waiting) (place : String) (node : Value) : Walk :=
  { w with place, node, task := .visit, callers := ⟨w.place, w.node, waiting⟩ :: w.callers }

/-- Decide about the reference at the node, once its siblings are expanded. -/
def settle (document : Value) (w : Walk) (ref : String) (siblings : Entries) : Walk :=
  if ref ∈ w.stack then { w with task := .back (.ok (openNode ref siblings)) }
  else
    match w.memory.get? ref with
    | some expanded => { w with task := .back (.ok (withSiblings siblings expanded)) }
    | none =>
      match resolve document ref with
      | .error _ =>
        if ref.startsWith schemaPointer then { w with task := .back (.ok (openNode ref siblings)) }
        else { w with task := .back (.error (.unresolved ref w.place)) }
      | .ok target => { w.goTo (.target ref siblings) ref target with stack := ref :: w.stack }

/-- Get back to a caller. After a target its reference leaves the stack, also if there is a fault; what
became of the target is remembered if there is none. -/
def backTo (w : Walk) (o : Except Fault Value) (c : Caller) (callers : List Caller) : Walk where
  place := c.place
  node := c.node
  task :=
    match o with
    | .ok v => c.waiting.next v
    | .error fault => .back (.error fault)
  callers := callers
  stack := if c.waiting.ref?.isSome then w.stack.tail else w.stack
  memory :=
    match c.waiting.ref?, o with
    | some ref, .ok v => w.memory.put ref (withOrigin ref v)
    | _, _ => w.memory

/-- One step. There is none once the walk is back from the node that it started with. -/
def step? (document : Value) (w : Walk) : Option Walk :=
  match w.task with
  | .visit => some w.enter
  | .items _ [] done => some { w with task := .back (.ok (.list done)) }
  | .items index (v :: vs) done => some (w.goTo (.item index vs done) s!"{w.place}/{index}" v)
  | .entries [] done =>
    match openRef? w.node with
    | some ref => some (w.settle document ref done)
    | none => some { w with task := .back (.ok (.map done)) }
  | .entries ((k, v) :: es) done => some (w.goTo (.entry k es done) s!"{w.place}/{k.display}" v)
  | .back o =>
    match w.callers with
    | [] => none
    | c :: callers => some (w.backTo o c callers)

end Walk

/-- The second walk is the first one some steps later. -/
def Reaches (document : Value) : Walk → Walk → Prop :=
  Relation.ReflTransGen fun w w' => w.step? document = some w'

-- ---------------------------------------------------------------------------
-- The way to a node
-- ---------------------------------------------------------------------------

/-- The first value is a member of the second. -/
inductive MemberOf : Value → Value → Prop
  | item {v : Value} {items : List Value} (h : v ∈ items) : MemberOf v (.list items)
  | entry {v : Value} {entries : Entries} (h : v ∈ entries.values) : MemberOf v (.map entries)

theorem MemberOf.depth_lt {v node : Value} (h : MemberOf v node) : v.depth < node.depth := by
  cases h with
  | item h =>
    have := Value.depth_le_itemsDepth h
    simp only [Value.depth]
    omega
  | entry h =>
    obtain ⟨e, he, rfl⟩ := List.mem_map.mp h
    have := (Value.depth_le_entriesDepth he).2
    simp only [Value.depth]
    omega

theorem MemberOf.within {v node : Value} (h : MemberOf v node) : Within v node := by
  cases h with
  | item h => exact .item h (.refl v)
  | entry h =>
    obtain ⟨e, he, rfl⟩ := List.mem_map.mp h
    exact .entry he (.refl e.2)

theorem Within.depth_le {v w : Value} (h : Within v w) : v.depth ≤ w.depth := by
  induction h with
  | refl => exact Nat.le_refl _
  | item hMem _ ih => exact Nat.le_trans ih (Nat.le_of_lt (MemberOf.item hMem).depth_lt)
  | entry hMem _ ih =>
    exact Nat.le_trans ih (Nat.le_of_lt (MemberOf.entry (List.mem_map_of_mem hMem)).depth_lt)

/-- The values that are still to be visited. -/
def Task.rest : Task → List Value
  | .items _ rest _ => rest
  | .entries rest _ => rest.values
  | .visit | .back _ => []

def Waiting.rest : Waiting → List Value
  | .item _ rest _ => rest
  | .entry _ rest _ => rest.values
  | .target _ _ => []

theorem Waiting.rest_next (waiting : Waiting) (h : waiting.ref? = none) (v : Value) :
    (waiting.next v).rest = waiting.rest := by
  cases waiting with
  | target ref siblings => cases h
  | _ => rfl

/-- The references that the walk came through. -/
def refsOf (callers : List Caller) : List String := callers.filterMap (·.waiting.ref?)

/-- The nodes that the walk came through since the last reference. -/
def sinceRef (callers : List Caller) : List Caller :=
  callers.takeWhile (·.waiting.ref?.isNone)

section Since

variable {c : Caller} {callers : List Caller}

theorem refsOf_cons_of_none (h : c.waiting.ref? = none) : refsOf (c :: callers) = refsOf callers :=
  List.filterMap_cons_none h

theorem refsOf_cons_of_some {ref : String} (h : c.waiting.ref? = some ref) :
    refsOf (c :: callers) = ref :: refsOf callers :=
  List.filterMap_cons_some h

theorem sinceRef_cons_of_none (h : c.waiting.ref? = none) :
    sinceRef (c :: callers) = c :: sinceRef callers :=
  List.takeWhile_cons_of_pos (by rw [h]; rfl)

theorem sinceRef_cons_of_some {ref : String} (h : c.waiting.ref? = some ref) :
    sinceRef (c :: callers) = [] :=
  List.takeWhile_cons_of_neg (by rw [h]; exact Bool.false_ne_true)

end Since

/-- The callers are a way from the document to the node. Each one leads to the next by one of its
members, or it is a reference and leads to its target. -/
inductive LeadTo (document : Value) : List Caller → Value → Prop
  | start : LeadTo document [] document
  | member {callers : List Caller} {place : String} {node v : Value} {waiting : Waiting}
      (h : LeadTo document callers node) (hOther : waiting.ref? = none)
      (hRest : ∀ u ∈ waiting.rest, MemberOf u node) (hMember : MemberOf v node) :
      LeadTo document (⟨place, node, waiting⟩ :: callers) v
  | target {callers : List Caller} {place ref : String} {node target : Value} {siblings : Entries}
      (h : LeadTo document callers node) (hRef : openRef? node = some ref)
      (hTarget : resolve document ref = .ok target) :
      LeadTo document (⟨place, node, .target ref siblings⟩ :: callers) target

section LeadTo

variable {document node : Value} {callers : List Caller}

theorem LeadTo.within (h : LeadTo document callers node) : Within node document := by
  induction h with
  | start => exact .refl document
  | member _ _ _ hMember ih => exact hMember.within.trans ih
  | target _ _ hTarget => exact resolve_within hTarget

theorem openRef_mem_refsIn_of_within (hWithin : Within node document) {ref : String}
    (hRef : openRef? node = some ref) : ref ∈ refsIn document := by
  cases node with
  | map entries => exact hWithin.refsIn_subset (openRef_mem_refsIn hRef)
  | _ => cases hRef

/-- The references that the walk came through occur in the document and have targets there. -/
theorem LeadTo.refs (h : LeadTo document callers node) :
    ∀ ref ∈ refsOf callers, ref ∈ refsIn document ∧ ∃ target, resolve document ref = .ok target := by
  induction h with
  | start => simp [refsOf]
  | member _ hOther _ _ ih =>
    rw [refsOf_cons_of_none hOther]
    exact ih
  | target h hRef hTarget ih =>
    rw [refsOf_cons_of_some rfl]
    refine List.forall_mem_cons.mpr ⟨⟨?_, _, hTarget⟩, ih⟩
    exact openRef_mem_refsIn_of_within h.within hRef

/-- **Between two references the walk goes down.** -/
theorem LeadTo.sinceRef_length_le (h : LeadTo document callers node) :
    (sinceRef callers).length + node.depth ≤ document.depth := by
  induction h with
  | start => simp [sinceRef]
  | member _ hOther _ hMember ih =>
    have hLess := hMember.depth_lt
    rw [sinceRef_cons_of_none hOther, List.length_cons]
    omega
  | target _ _ hTarget =>
    rw [sinceRef_cons_of_some rfl, List.length_nil, Nat.zero_add]
    exact (resolve_within hTarget).depth_le

/-- So the way is no longer than the references on it allow. -/
theorem LeadTo.length_le (h : LeadTo document callers node) :
    callers.length + node.depth ≤
      (refsOf callers).length + ((refsOf callers).length + 1) * document.depth := by
  induction h with
  | start => simp [refsOf]
  | member _ hOther _ hMember ih =>
    have hLess := hMember.depth_lt
    rw [refsOf_cons_of_none hOther, List.length_cons]
    omega
  | target h _ hTarget ih =>
    have hDepth := (resolve_within hTarget).depth_le
    rw [refsOf_cons_of_some rfl, List.length_cons, List.length_cons, Nat.succ_mul (_ + 1)]
    omega

end LeadTo

-- ---------------------------------------------------------------------------
-- Walks in order
-- ---------------------------------------------------------------------------

/-- The walk came from the document to its node, and its stack holds the references on the way, none
of them twice. -/
structure Orderly (document : Value) (w : Walk) : Prop where
  way   : LeadTo document w.callers w.node
  rest  : ∀ u ∈ w.task.rest, MemberOf u w.node
  stack : w.stack = refsOf w.callers
  nodup : w.stack.Nodup

namespace Orderly

variable {document : Value} {w w' : Walk}

theorem start (document : Value) : Orderly document (.start document) where
  way := .start
  rest := List.forall_mem_nil _
  stack := rfl
  nodup := .nil

theorem back (h : Orderly document w) (o : Except Fault Value) :
    Orderly document { w with task := .back o } :=
  { h with rest := List.forall_mem_nil _ }

theorem enter (h : Orderly document w) : Orderly document w.enter := by
  obtain ⟨place, node, task, callers, stack, memory⟩ := w
  cases node with
  | list items => exact { h with rest := fun _ hMem => .item hMem }
  | map entries =>
    rw [Walk.enter]
    dsimp only
    split
    · refine { h with rest := fun u hMem => .entry ?_ }
      obtain ⟨e, he, rfl⟩ := List.mem_map.mp hMem
      exact List.mem_map_of_mem (List.mem_of_mem_filter he)
    · exact { h with rest := fun _ hMem => .entry hMem }
  | _ => exact h.back _

/-- A walk can go to a member of its node. -/
theorem goTo (h : Orderly document w) {waiting : Waiting} {v : Value} (place : String)
    (hOther : waiting.ref? = none) (hRest : ∀ u ∈ v :: waiting.rest, MemberOf u w.node) :
    Orderly document (w.goTo waiting place v) where
  way := by
    obtain ⟨hMember, hLater⟩ := List.forall_mem_cons.mp hRest
    exact .member h.way hOther hLater hMember
  rest := List.forall_mem_nil _
  stack := h.stack.trans (refsOf_cons_of_none hOther).symm
  nodup := h.nodup

/-- It goes to a target only if the reference is not on the stack. -/
theorem settle (h : Orderly document w) {ref : String} (hRef : openRef? w.node = some ref)
    (siblings : Entries) : Orderly document (w.settle document ref siblings) := by
  rw [Walk.settle]
  split
  · exact h.back _
  rename_i hFresh
  split
  · exact h.back _
  split
  · split <;> exact h.back _
  · rename_i hTarget
    exact {
      way := .target h.way hRef hTarget
      rest := List.forall_mem_nil _
      stack := congrArg (ref :: ·) h.stack
      nodup := List.nodup_cons.mpr ⟨hFresh, h.nodup⟩ }

/-- Back at a caller, the stack is what it was there. -/
theorem backTo (h : Orderly document w) {c : Caller} {callers : List Caller}
    (hCallers : w.callers = c :: callers) (o : Except Fault Value) :
    Orderly document (w.backTo o c callers) := by
  obtain ⟨hWay, -, hStack, hNodup⟩ := h
  rw [hCallers] at hWay hStack
  cases hWay with
  | @member _ place node v waiting hWay hOther hRest hMember =>
    -- members leave the stack as it is
    have hSame : (w.backTo o ⟨place, node, waiting⟩ callers).stack = w.stack := by
      show (if waiting.ref?.isSome then w.stack.tail else w.stack) = w.stack
      rw [hOther]
      rfl
    refine ⟨hWay, ?_, ?_, ?_⟩
    · cases o with
      | error fault => exact List.forall_mem_nil _
      | ok v =>
        show ∀ u ∈ (waiting.next v).rest, MemberOf u node
        rw [waiting.rest_next hOther]
        exact hRest
    · rw [hSame, hStack]
      exact refsOf_cons_of_none hOther
    · rw [hSame]
      exact hNodup
  | @target _ place ref node target siblings hWay hRef hTarget =>
    -- the reference on top is the one whose target the walk was in
    have hTail : w.stack.tail = refsOf callers := by
      rw [hStack]
      rfl
    refine ⟨hWay, ?_, hTail, hNodup.tail⟩
    cases o <;> exact List.forall_mem_nil _

/-- **Each step keeps a walk in order.** -/
theorem step (h : Orderly document w) (hStep : w.step? document = some w') : Orderly document w' := by
  obtain ⟨place, node, task, callers, stack, memory⟩ := w
  cases task with
  | visit =>
    cases hStep
    exact h.enter
  | items index rest done =>
    cases rest with
    | nil =>
      cases hStep
      exact h.back _
    | cons v vs =>
      cases hStep
      exact h.goTo _ rfl h.rest
  | entries rest done =>
    cases rest with
    | nil =>
      rw [Walk.step?] at hStep
      dsimp only at hStep
      split at hStep
      · cases hStep
        exact h.settle ‹_› done
      · cases hStep
        exact h.back _
    | cons e es =>
      cases hStep
      exact h.goTo _ rfl h.rest
  | back o =>
    cases callers with
    | nil => cases hStep
    | cons c callers =>
      cases hStep
      exact h.backTo rfl o

theorem of_reaches (h : Orderly document w) (hReaches : Reaches document w w') :
    Orderly document w' := by
  induction hReaches with
  | refl => exact h
  | tail _ hStep ih => exact ih.step hStep

end Orderly

-- ---------------------------------------------------------------------------
-- The recursion
-- ---------------------------------------------------------------------------

/-- The walk gets to a task at its node with what a run yields and remembers, or back with the fault
of the run. Place, callers and stack are the same as before. -/
def Finishes {α : Type} (document : Value) (w : Walk) (task : α → Task) :
    Except Fault (α × Memory) → Prop
  | .ok (a, memory) => Reaches document w { w with task := task a, memory }
  | .error fault => ∃ memory, Reaches document w { w with task := .back (.error fault), memory }

section Finishes

variable {document : Value} {w : Walk} {α β : Type} {t : α → Task} {t' : β → Task}

/-- A step that stays at the node can go before. -/
theorem Finishes.of_step {o : Except Fault (α × Memory)} {task : Task}
    (hStep : w.step? document = some { w with task })
    (h : Finishes document { w with task } t o) : Finishes document w t o := by
  cases o with
  | ok p => exact .head hStep h
  | error fault =>
    obtain ⟨memory, h⟩ := h
    exact ⟨memory, .head hStep h⟩

/-- What the walk is at already. -/
theorem Finishes.here {a : α} (hTask : w.task = t a) :
    Finishes document w t ((Pure.pure a : Expansion α).run w.memory).outcome := by
  obtain ⟨place, node, task, callers, stack, memory⟩ := w
  subst hTask
  exact .refl

theorem Finishes.pure {a : α} (hStep : w.step? document = some { w with task := t a }) :
    Finishes document w t ((Pure.pure a : Expansion α).run w.memory).outcome :=
  Relation.ReflTransGen.single hStep

/-- Runs follow each other. -/
theorem Finishes.bind {x : Expansion α} {f : α → Expansion β} {memory : Memory}
    (hx : Finishes document w t (x.run memory).outcome)
    (hf : ∀ a memory', Finishes document { w with task := t a, memory := memory' } t'
      ((f a).run memory').outcome) :
    Finishes document w t' ((x >>= f).run memory).outcome := by
  rw [StateT.run_bind, Journal.outcome_bind]
  cases hRun : (x.run memory).outcome with
  | error fault =>
    rw [hRun] at hx
    exact hx
  | ok p =>
    rw [hRun] at hx
    have hRest := hf p.1 p.2
    show Finishes document w t' ((f p.1).run p.2).outcome
    cases hLater : ((f p.1).run p.2).outcome with
    | ok q =>
      rw [hLater] at hRest
      exact hx.trans hRest
    | error fault =>
      rw [hLater] at hRest
      obtain ⟨memory', hRest⟩ := hRest
      exact ⟨memory', hx.trans hRest⟩

/-- What came of a member of the node. -/
theorem Finishes.of_member {o : Except Fault (Value × Memory)} {waiting : Waiting} {place : String}
    {v : Value} (hOther : waiting.ref? = none)
    (hStep : w.step? document = some (w.goTo waiting place v))
    (h : Finishes document (w.goTo waiting place v) (fun u => .back (.ok u)) o) :
    Finishes document w waiting.next o := by
  have hBack : ∀ o memory,
      Walk.backTo { w.goTo waiting place v with task := .back o, memory } o
        ⟨w.place, w.node, waiting⟩ w.callers =
      { w with
        memory
        task := match o with
          | .ok u => waiting.next u
          | .error fault => .back (.error fault) } := by
    intro o memory
    cases waiting with
    | target ref siblings => cases hOther
    | _ => rfl
  cases o with
  | ok p => exact .head hStep (h.tail (congrArg some (hBack (.ok p.1) p.2)))
  | error fault =>
    obtain ⟨memory, h⟩ := h
    exact ⟨memory, .head hStep (h.tail (congrArg some (hBack (.error fault) memory)))⟩

/-- What came of the target of a reference is remembered, and the siblings are laid over it. -/
theorem Finishes.of_target {x : Expansion Value} {ref : String} {siblings : Entries} {target : Value}
    (hStep : w.step? document =
      some { w.goTo (.target ref siblings) ref target with stack := ref :: w.stack })
    (h : Finishes document { w.goTo (.target ref siblings) ref target with stack := ref :: w.stack }
      (fun u => .back (.ok u)) (x.run w.memory).outcome) :
    Finishes document w (fun u => .back (.ok u)) ((do
      let expanded ← x
      let expanded := withOrigin ref expanded
      modify fun memory => memory.put ref expanded
      return withSiblings siblings expanded : Expansion Value).run w.memory).outcome := by
  rw [StateT.run_bind, Journal.outcome_bind]
  cases hRun : (x.run w.memory).outcome with
  | ok p =>
    rw [hRun] at h
    exact .head hStep (h.tail rfl)
  | error fault =>
    rw [hRun] at h
    obtain ⟨memory, h⟩ := h
    exact ⟨memory, .head hStep (h.tail rfl)⟩

end Finishes

/-- The references that are available are those that are not on the stack. -/
structure Unused (document : Value) (available stack : List String) : Prop where
  nodup : available.Nodup
  fresh : ∀ ref ∈ refsIn document, ref ∈ available ↔ ref ∉ stack

theorem Unused.push {document : Value} {available stack : List String} {ref : String}
    (h : Unused document available stack) : Unused document (available.erase ref) (ref :: stack) where
  nodup := h.nodup.erase ref
  fresh := by
    intro ref' hMem
    rw [h.nodup.mem_erase_iff, h.fresh ref' hMem, List.mem_cons, not_or]

section Steps

variable {document : Value} {w : Walk}

theorem step?_list {items : List Value} (hVisit : w.task = .visit) (hNode : w.node = .list items) :
    w.step? document = some { w with task := .items 0 items [] } := by
  simp only [Walk.step?, hVisit, Walk.enter, hNode]

theorem step?_map {entries : Entries} (hVisit : w.task = .visit) (hNode : w.node = .map entries)
    (hPlain : openRef? (.map entries) = none) :
    w.step? document = some { w with task := .entries entries [] } := by
  simp only [Walk.step?, hVisit, Walk.enter, hNode, hPlain]

theorem step?_ref {entries : Entries} {ref : String} (hVisit : w.task = .visit)
    (hNode : w.node = .map entries) (hRef : openRef? (.map entries) = some ref) :
    w.step? document =
      some { w with task := .entries (Dictionary.erase entries (.str refKey)) [] } := by
  simp only [Walk.step?, hVisit, Walk.enter, hNode, hRef]

theorem step?_scalar {v : Value} (hVisit : w.task = .visit) (hNode : w.node = v)
    (hList : ∀ items, v ≠ .list items) (hMap : ∀ entries, v ≠ .map entries) :
    w.step? document = some { w with task := .back (.ok v) } := by
  cases v with
  | list items => exact absurd rfl (hList items)
  | map entries => exact absurd rfl (hMap entries)
  | _ => simp only [Walk.step?, hVisit, Walk.enter, hNode]

theorem step?_item {index : Nat} {v : Value} {vs done : List Value}
    (hTask : w.task = .items index (v :: vs) done) :
    w.step? document = some (w.goTo (.item index vs done) s!"{w.place}/{index}" v) := by
  simp only [Walk.step?, hTask]

theorem step?_entry {k v : Value} {es done : Entries} (hTask : w.task = .entries ((k, v) :: es) done) :
    w.step? document = some (w.goTo (.entry k es done) s!"{w.place}/{k.display}" v) := by
  simp only [Walk.step?, hTask]

theorem step?_collected {done : Entries} (hTask : w.task = .entries [] done)
    (hPlain : openRef? w.node = none) :
    w.step? document = some { w with task := .back (.ok (.map done)) } := by
  simp only [Walk.step?, hTask, hPlain]

theorem step?_settle {siblings : Entries} {ref : String} (hTask : w.task = .entries [] siblings)
    (hRef : openRef? w.node = some ref) :
    w.step? document = some (w.settle document ref siblings) := by
  simp only [Walk.step?, hTask, hRef]

end Steps

mutual

/-- **The walk gets back from each node**, with what the recursion makes of the node and with the
stack that it came with. -/
theorem visit_finishes {document : Value} (available : List String) (v : Value) {w : Walk}
    (hNode : w.node = v) (hVisit : w.task = .visit) (hWithin : Within v document)
    (hUnused : Unused document available w.stack) :
    Finishes document w (fun u => .back (.ok u))
      ((expandValue document available w.place v).run w.memory).outcome := by
  match v with
  | .list items =>
    rw [expandValue]
    refine .of_step (step?_list hVisit hNode)
      (.bind (items_finishes available items rfl (fun _ => hWithin.of_item) hUnused) ?_)
    exact fun _ _ => .pure rfl
  | .map entries =>
    cases hRef : openRef? (.map entries) with
    | none =>
      rw [expandValue_map hRef]
      refine .of_step (step?_map hVisit hNode hRef)
        (.bind (entries_finishes available entries rfl (fun _ => hWithin.of_entry) hUnused) ?_)
      exact fun _ _ => .pure (step?_collected rfl (hNode ▸ hRef))
    | some ref =>
      rw [expandValue_ref hRef, expandEntries_siblings]
      refine .of_step (step?_ref hVisit hNode hRef)
        (.bind (entries_finishes available _ rfl (fun _ => hWithin.of_sibling) hUnused) ?_)
      intro siblings memory
      have hStep : ({ w with task := .entries [] siblings, memory } : Walk).step? document =
          some (.settle document { w with task := .entries [] siblings, memory } ref siblings) :=
        step?_settle rfl (hNode ▸ hRef)
      have hFresh := hUnused.fresh ref (openRef_mem_refsIn_of_within hWithin hRef)
      by_cases hHere : ref ∈ available
      · rw [Walk.settle, if_neg (hFresh.mp hHere)] at hStep
        simp only [if_pos hHere]
        rw [StateT.run_bind, StateT.run_get, pure_bind]
        dsimp only
        cases hGet : memory.get? ref with
        | some expanded =>
          rw [hGet] at hStep
          exact .pure hStep
        | none =>
          rw [hGet] at hStep
          cases hTarget : resolve document ref with
          | error fault =>
            rw [hTarget] at hStep
            dsimp only at hStep ⊢
            split
            · rw [if_pos ‹_›] at hStep
              exact .pure hStep
            · rw [if_neg ‹_›] at hStep
              exact ⟨memory, .single hStep⟩
          | ok target =>
            rw [hTarget] at hStep
            refine .of_target hStep (visit_finishes (available.erase ref) target rfl rfl ?_ ?_)
            · exact resolve_within hTarget
            · exact hUnused.push
      · rw [Walk.settle, if_pos (by_contra fun h => hHere (hFresh.mpr h))] at hStep
        simp only [if_neg hHere]
        exact .pure hStep
  | .null | .bool _ | .int _ | .float _ | .str _ | .date _ | .moment _ | .bytes _ | .set _ =>
    rw [expandValue] <;> first
      | exact .pure (step?_scalar hVisit hNode nofun nofun)
      | nofun
termination_by (available.length, v.depth, 0)
decreasing_by
  -- Members are less deep. A target can be deeper, but its reference is no longer available there.
  · simp only [Value.depth, Prod.lex_def, true_and]
    omega
  · simp only [Value.depth, Prod.lex_def, true_and]
    omega
  · have := entriesDepth_filter_le (fun e => !(e.1 == Value.str refKey)) entries
    simp only [Value.depth, Dictionary.erase, Prod.lex_def, true_and]
    omega
  · apply Prod.Lex.left
    rw [List.length_erase_of_mem hHere]
    have := List.length_pos_of_mem hHere
    omega

theorem items_finishes {document : Value} (available : List String) (items : List Value) {w : Walk}
    {index : Nat} {done : List Value} (hTask : w.task = .items index items done)
    (hWithin : ∀ v ∈ items, Within v document) (hUnused : Unused document available w.stack) :
    Finishes document w (fun ws => .items (index + items.length) [] (done ++ ws))
      ((expandItems document available w.place index items).run w.memory).outcome := by
  match items with
  | [] =>
    rw [expandItems]
    exact .here (by rw [hTask, List.append_nil]; rfl)
  | v :: vs =>
    obtain ⟨hHead, hRest⟩ := List.forall_mem_cons.mp hWithin
    rw [expandItems]
    refine .bind (.of_member rfl (step?_item hTask)
      (visit_finishes available v rfl rfl hHead hUnused)) fun u memory => ?_
    refine .bind (items_finishes available vs rfl hRest hUnused) fun us memory' => .here ?_
    simp only [List.length_cons, List.append_assoc, List.singleton_append, Nat.add_assoc,
      Nat.add_comm 1]
termination_by (available.length, Value.itemsDepth items, items.length + 1)
decreasing_by all_goals simp only [Value.itemsDepth, Prod.lex_def, List.length_cons, true_and]; omega

theorem entries_finishes {document : Value} (available : List String) (entries : Entries) {w : Walk}
    {done : Entries} (hTask : w.task = .entries entries done)
    (hWithin : ∀ e ∈ entries, Within e.2 document) (hUnused : Unused document available w.stack) :
    Finishes document w (fun es => .entries [] (done ++ es))
      ((expandEntries document available w.place false entries).run w.memory).outcome := by
  match entries with
  | [] =>
    rw [expandEntries]
    exact .here (by rw [hTask, List.append_nil])
  | (k, v) :: es =>
    obtain ⟨hHead, hRest⟩ := List.forall_mem_cons.mp hWithin
    rw [expandEntries, Bool.false_and, if_neg Bool.false_ne_true]
    refine .bind (.of_member rfl (step?_entry hTask)
      (visit_finishes available v rfl rfl hHead hUnused)) fun u memory => ?_
    refine .bind (entries_finishes available es rfl hRest hUnused) fun us memory' => .here ?_
    simp only [List.append_assoc, List.singleton_append]
termination_by (available.length, Value.entriesDepth entries, entries.length + 1)
decreasing_by all_goals simp only [Value.entriesDepth, Prod.lex_def, List.length_cons, true_and]; omega

end

-- ---------------------------------------------------------------------------
-- The end of the walk
-- ---------------------------------------------------------------------------

/-- A walk that gets to a last state does not go on for ever. -/
theorem exists_end_of_run {document : Value} {w last : Walk} (hReaches : Reaches document w last)
    (run : Nat → Walk) (hStart : run 0 = w) (hRun : ∀ n, (run n).step? document = some (run (n + 1))) :
    ∃ n, run n = last := by
  induction hReaches with
  | refl => exact ⟨0, hStart⟩
  | tail _ hStep ih =>
    obtain ⟨n, rfl⟩ := ih
    exact ⟨n + 1, Option.some.inj ((hRun n).symm.trans hStep)⟩

/-- The walk gets back from the document with the outcome of expansion. -/
theorem start_reaches (document : Value) :
    ∃ memory, Reaches document (.start document)
      { Walk.start document with task := .back (expand document).outcome, memory } := by
  have hUnused : Unused document (refsIn document).eraseDups (Walk.start document).stack :=
    ⟨nodup_eraseDups _, fun ref hMem => by simpa [Walk.start] using hMem⟩
  have hRun := visit_finishes (refsIn document).eraseDups document (w := .start document) rfl rfl
    (.refl document) hUnused
  rw [expand, Journal.outcome_bind]
  cases hOutcome : ((expandValue document (refsIn document).eraseDups "#" document).run []).outcome with
  | ok p =>
    rw [Walk.start, hOutcome] at hRun
    exact ⟨p.2, hRun⟩
  | error fault =>
    rw [Walk.start, hOutcome] at hRun
    exact hRun

/-- **The walk ends.** At each moment the references on its stack are those that it came through. No
two of them are the same, they occur in the document and have targets there, so there are at most as
many as the document has different references; and from one to the next the walk goes down. It cannot
go on for ever, and when it ends its stack is empty and it has the outcome of expansion. -/
theorem walk_ends (document : Value) :
    (∀ w, Reaches document (.start document) w →
      w.stack = refsOf w.callers ∧ LeadTo document w.callers w.node ∧ w.stack.Nodup ∧
      (∀ ref ∈ w.stack, ref ∈ refsIn document ∧ ∃ target, resolve document ref = .ok target) ∧
      w.stack.length ≤ (refsIn document).eraseDups.length ∧
      (sinceRef w.callers).length + w.node.depth ≤ document.depth ∧
      w.callers.length ≤ w.stack.length + (w.stack.length + 1) * document.depth) ∧
    (∃ last, Reaches document (.start document) last ∧ last.step? document = none ∧
      last.task = .back (expand document).outcome ∧ last.callers = [] ∧ last.stack = []) ∧
    ¬ ∃ run : Nat → Walk, run 0 = .start document ∧
      ∀ n, (run n).step? document = some (run (n + 1)) := by
  obtain ⟨memory, hEnd⟩ := start_reaches document
  refine ⟨?_, ⟨_, hEnd, rfl, rfl, rfl, rfl⟩, ?_⟩
  · intro w hReaches
    have hOrderly := (Orderly.start document).of_reaches hReaches
    have hRefs : ∀ ref ∈ w.stack, ref ∈ refsIn document ∧
        ∃ target, resolve document ref = .ok target := by
      rw [hOrderly.stack]
      exact hOrderly.way.refs
    have hFew : w.stack.length ≤ (refsIn document).eraseDups.length :=
      (List.subperm_of_subset hOrderly.nodup fun ref hMem =>
        List.mem_eraseDups.mpr (hRefs ref hMem).1).length_le
    have hLength := hOrderly.way.length_le
    rw [← hOrderly.stack] at hLength
    exact ⟨hOrderly.stack, hOrderly.way, hOrderly.nodup, hRefs, hFew,
      hOrderly.way.sinceRef_length_le, Nat.le_of_add_right_le hLength⟩
  · rintro ⟨run, hStart, hRun⟩
    obtain ⟨n, hLast⟩ := exists_end_of_run hEnd run hStart hRun
    have hStep := hRun n
    rw [hLast] at hStep
    cases hStep

end ClientGen.Document
