import ClientGen.Proofs.Api.Normal
import ClientGen.Proofs.Api.Reading
import ClientGen.Proofs.Document.Leftover
import ClientGen.Proofs.Document.Plain
import Mathlib

/-!
# Shared components written in place

A parameter, a request body, a response or a path item may stand in the document as a
reference to a component that several operations share. It means the same as the component
written in its place: both documents have the same endpoints, or none of them has any.

Expansion goes through both documents side by side. Where the node was, one of them takes
the step from the reference to its target, which leaves the origin in the expanded node;
that is all the difference there is. It does not matter where nobody asks for the origin.
But the node can be carried elsewhere: a reference to something around the node brings a
copy of it to where that reference stands, and if this is among the properties of a
schema, the origin of the copy decides what becomes of it. So what counts is each role
that the node is brought to.

Main results:

* `Expands.read_eq` — of both expanded documents the same is read.
* `endpoints?_inlined` — a shared component can be written in place.
* `endpoints?_copiedBody` — but not where a copy of it becomes a schema.
-/

namespace ClientGen.Api

open ClientGen.Document ClientGen.Document.Value ClientGen.Schema

-- ---------------------------------------------------------------------------
-- Where expansion brings nodes
-- ---------------------------------------------------------------------------

/-- Expansion brings the node at a place of the document to where it has this role: it goes down the
document, and at a reference on to the target, which takes the role of the reference. -/
inductive Brought (document : Value) : Role → List Step → Value → Prop
  | root : Brought document .document [] document
  | member {r : Role} {place : List Step} {entries : Entries} {k v : Value}
      (h : Brought document r place (.map entries)) (hMem : (k, v) ∈ entries) :
      Brought document (r.member k) (place ++ [.key k]) v
  | item {r : Role} {place : List Step} {before after : List Value} {v : Value}
      (h : Brought document r place (.list (before ++ v :: after))) :
      Brought document r.item (place ++ [.index before.length]) v
  | target {r : Role} {place : List Step} {v target : Value} {ref : String} {keys : List String}
      (h : Brought document r place v) (hRef : openRef? v = some ref)
      (hKeys : Pointer.keys? ref = some keys) (hTarget : Pointer.follow? document keys = some target) :
      Brought document r (pointerSteps keys) target

/-- Wherever expansion brings the node at the place, it stands for a path item, a parameter, a request
body or a response, or nobody looks at it. -/
def SharedOnly (document : Value) (place : List Step) : Prop :=
  ∀ r v, Brought document r place v → r.shared = true ∨ r = .unread

theorem Brought.within {document v : Value} {r : Role} {place : List Step}
    (h : Brought document r place v) : Within v document := by
  induction h with
  | root => exact .refl _
  | member _ hMem ih => exact ih.of_entry hMem
  | item _ ih => exact ih.of_item (List.mem_append_right _ List.mem_cons_self)
  | target _ _ _ hTarget _ => exact follow?_within hTarget

-- ---------------------------------------------------------------------------
-- Two documents side by side
-- ---------------------------------------------------------------------------

/-- In both documents expansion meets these values in the role: they are the same, or the second
one is the first one with the reference at the place replaced by its target. -/
def Meets (place : List Step) (ref : String) (target document : Value) (r : Role) (v v' : Value) :
    Prop :=
  ∃ here, Brought document r here v ∧
    (v' = v ∨ ∃ rest, place = here ++ rest ∧ Replaced (referenceNode ref) target rest v v')

section Meets

variable {place : List Step} {ref other : String} {target document document' v v' u : Value} {r : Role}

theorem Meets.within (h : Meets place ref target document r v v') : Within v document := by
  obtain ⟨_, hBrought, -⟩ := h
  exact hBrought.within

theorem Brought.meets {here : List Step} (h : Brought document r here v) :
    Meets place ref target document r v v :=
  ⟨here, h, Or.inl rfl⟩

theorem Meets.root (hInlined : Inlined place ref target document document') :
    Meets place ref target document .document document document' :=
  ⟨[], .root, Or.inr ⟨place, rfl, hInlined.replaced⟩⟩

/-- Scalars are the same. -/
theorem Meets.scalar_eq (h : Meets place ref target document r v v')
    (hList : ∀ items, v ≠ .list items) (hMap : ∀ entries, v ≠ .map entries) : v' = v := by
  obtain ⟨_, -, hSame | ⟨_, -, hReplaced⟩⟩ := h
  · exact hSame
  · cases hReplaced with
    | here => exact absurd rfl (hMap _)
    | member _ => exact absurd rfl (hMap _)
    | item _ => exact absurd rfl (hList _)

theorem Brought.meets_items {here : List Step} {items : List Value}
    (h : Brought document r here (.list items)) :
    ∀ v ∈ items, Meets place ref target document r.item v v := by
  intro v hMem
  obtain ⟨before, after, rfl⟩ := List.append_of_mem hMem
  exact h.item.meets

/-- The items of lists are met one by one. -/
theorem Meets.list_cases {items : List Value} (h : Meets place ref target document r (.list items) v') :
    ∃ items', v' = .list items' ∧
      List.Forall₂ (Meets place ref target document r.item) items items' := by
  obtain ⟨here, hBrought, rfl | ⟨_, rfl, hReplaced⟩⟩ := h
  · exact ⟨items, rfl, List.forall₂_same.mpr hBrought.meets_items⟩
  · generalize hList : Value.list items = w at hReplaced
    cases hReplaced with
    | here => cases hList
    | member _ => cases hList
    | @item before after v w rest hInner =>
      cases hList
      have hOthers : ∀ u ∈ before ++ v :: after,
          Meets (here ++ .index before.length :: rest) ref target document r.item u u :=
        hBrought.meets_items
      obtain ⟨hBefore, hAfter⟩ := List.forall_mem_append.mp hOthers
      refine ⟨_, rfl, List.rel_append (List.forall₂_same.mpr hBefore) (.cons ?_ ?_)⟩
      · exact ⟨_, hBrought.item, Or.inr ⟨rest, by rw [List.append_assoc]; rfl, hInner⟩⟩
      · exact List.forall₂_same.mpr (List.forall_mem_cons.mp hAfter).2

/-- The members of mappings are met one by one, unless the first mapping is the node itself. -/
theorem Meets.map_cases (hInlined : Inlined place ref target document document') {entries : Entries}
    (h : Meets place ref target document r (.map entries) v') :
    (entries = [(.str refKey, .str ref)] ∧ v' = target ∧ Brought document r place (.map entries)) ∨
      ∃ entries', v' = .map entries' ∧ openRef? (.map entries') = openRef? (.map entries) ∧
        Dictionary.Alongside (fun k => Meets place ref target document (r.member k)) entries
          entries' := by
  obtain ⟨here, hBrought, rfl | ⟨_, rfl, hReplaced⟩⟩ := h
  · refine Or.inr ⟨entries, rfl, rfl, List.forall₂_same.mpr fun e he => ⟨rfl, ?_⟩⟩
    exact (hBrought.member he).meets
  · generalize hMap : Value.map entries = w at hReplaced
    cases hReplaced with
    | here =>
      cases hMap
      rw [List.append_nil]
      exact Or.inl ⟨rfl, rfl, hBrought⟩
    | @member before after k v w rest hInner =>
      cases hMap
      refine Or.inr ⟨_, rfl, hInner.openRef?_eq rfl hInlined.isText_eq_false, ?_⟩
      have hOthers : ∀ e ∈ before ++ (k, v) :: after, e.1 = e.1 ∧
          Meets (here ++ .key k :: rest) ref target document (r.member e.1) e.2 e.2 :=
        fun e he => ⟨rfl, (hBrought.member he).meets⟩
      obtain ⟨hBefore, hAfter⟩ := List.forall_mem_append.mp hOthers
      refine List.rel_append (List.forall₂_same.mpr hBefore) (.cons ⟨rfl, ?_⟩ ?_)
      · refine ⟨_, hBrought.member (List.mem_append_right _ List.mem_cons_self),
          Or.inr ⟨rest, ?_, hInner⟩⟩
        rw [List.append_assoc]
        rfl
      · exact List.forall₂_same.mpr (List.forall_mem_cons.mp hAfter).2
    | item _ => cases hMap

/-- The target of a reference is brought to the role of the reference. -/
theorem Brought.meets_target {here : List Step} (h : Brought document r here v)
    (hRef : openRef? v = some other) (hTarget : resolve document other = .ok u) :
    Meets place ref target document r u u := by
  obtain ⟨keys, hKeys, hFollow⟩ := exists_of_resolve_ok hTarget
  exact (h.target hRef hKeys hFollow).meets

/-- The targets of a reference are met in its role. -/
theorem Meets.of_resolve (hInlined : Inlined place ref target document document')
    (h : Meets place ref target document r v v') (hRef : openRef? v = some other)
    (hTarget : resolve document other = .ok u) :
    ∃ u', resolve document' other = .ok u' ∧ Meets place ref target document r u u' := by
  obtain ⟨here, hBrought, -⟩ := h
  obtain ⟨keys, hKeys, hFollow⟩ := exists_of_resolve_ok hTarget
  have hThere : Brought document r (pointerSteps keys) u := hBrought.target hRef hKeys hFollow
  have hMem : other ∈ refsIn document := by
    cases v with
    | map entries => exact hBrought.within.refsIn_subset (openRef_mem_refsIn hRef)
    | _ => cases hRef
  rcases hInlined.resolve_cases hMem with
    hSame | ⟨keys', rest, w, u', hKeys', hPlace, hOld, hNew, hInner⟩
  · exact ⟨u, hSame.trans hTarget, hThere.meets⟩
  · cases hKeys.symm.trans hKeys'
    cases hTarget.symm.trans hOld
    exact ⟨u', hNew, _, hThere, Or.inr ⟨rest, hPlace, hInner⟩⟩

end Meets

end ClientGen.Api

namespace ClientGen.Document

open ClientGen.Api ClientGen.Document.Value ClientGen.Schema

-- ---------------------------------------------------------------------------
-- Expansions side by side
-- ---------------------------------------------------------------------------

variable {document document' target : Value} {place : List Step} {ref : String}

/-- Without cycles no reference that has a target is left in place. -/
theorem Acyclic.not_open (hAcyclic : Acyclic document) {inside : Option String} {other : String}
    {u : Value} (hTarget : resolve document other = .ok u) :
    ¬ (MissingSchema document other ∨ Recurs document inside other) := by
  rintro (⟨-, fault, hFault⟩ | hRecurs)
  · rw [hTarget] at hFault
    cases hFault
  · exact hAcyclic other hRecurs.onCycle

/-- The siblings of references are met one by one. -/
theorem alongside_erase {R : Value → Value → Value → Prop} {es es' : Entries} (k : Value)
    (h : Dictionary.Alongside R es es') :
    Dictionary.Alongside R (Dictionary.erase es k) (Dictionary.erase es' k) := by
  induction h with
  | nil => exact .nil
  | @cons e e' _ _ head _ ih =>
    unfold Dictionary.erase
    rw [List.filter_cons, List.filter_cons, ← head.1]
    split
    · exact .cons head ih
    · exact ih

/-- A node that is a reference and nothing else has no siblings. -/
theorem EntriesExpand.siblings_eq_nil {inside : Option String} {at₁ : String} {siblings : Entries}
    (h : EntriesExpand document inside at₁
      (Dictionary.erase [(.str refKey, .str ref)] (.str refKey)) (.ok siblings)) : siblings = [] := by
  have hErase : Dictionary.erase [(Value.str refKey, Value.str ref)] (.str refKey) = [] := by
    simp [Dictionary.erase]
  rw [hErase] at h
  cases h
  rfl

/-- In a shared role, what is read of the expanded node is what is read of its target. -/
theorem read_node {r : Role} {w x : Value} (hShared : r.shared = true ∨ r = .unread)
    (hSame : r.read w = r.read x) : r.read w = r.read (withSiblings [] (withOrigin ref x)) := by
  have hNode : withSiblings [] (withOrigin ref x) = withOrigin ref x := by
    cases x <;> rfl
  rw [hNode]
  rcases hShared with hShared | rfl
  · rw [Role.read_withOrigin_of_shared hShared, hSame]
  · rw [Role.read_unread, Role.read_unread]

mutual

/-- Of what both documents are expanded to the same is read. -/
theorem Expands.read_eq (hInlined : Inlined place ref target document document')
    (hAcyclic : Acyclic document) (hShared : SharedOnly document place) {r : Role}
    {inside inside' : Option String} {at₁ at₂ : String} {v v' w w' : Value} {o : Except Fault Value} :
    Expands document inside at₁ v o → Meets place ref target document r v v' → o = .ok w →
      Expands document' inside' at₂ v' (.ok w') → r.read w' = r.read w
  | .scalar hList hMap, hMeets, hOk, h' => by
    cases hOk
    rw [hMeets.scalar_eq hList hMap] at h'
    rw [h'.scalar_eq hList hMap]
  | .list hItems, hMeets, hOk, h' => by
    obtain ⟨ws, hDone, rfl⟩ := exists_of_map_ok hOk
    obtain ⟨vs', rfl, hBoth⟩ := hMeets.list_cases
    obtain ⟨ws', hItems', rfl⟩ := h'.list_cases
    by_cases hRead : r = .unread
    · rw [hRead, Role.read_unread, Role.read_unread]
    · rw [Role.read_list hRead, Role.read_list hRead,
        hItems.read_eq hInlined hAcyclic hShared hBoth hDone hItems']
  | .map hPlain hEntries, hMeets, hOk, h' => by
    obtain ⟨es, hDone, rfl⟩ := exists_of_map_ok hOk
    obtain ⟨rfl, -, -⟩ | ⟨es', rfl, hSameRef, hBoth⟩ := hMeets.map_cases hInlined
    · cases hPlain.symm.trans (openRef?_referenceNode ref)
    · obtain ⟨-, fs', hEntries', rfl⟩ | ⟨_, _, hRef, -⟩ := h'.map_cases
      · by_cases hRead : r = .unread
        · rw [hRead, Role.read_unread, Role.read_unread]
        · rw [Role.read_map hRead, Role.read_map hRead,
            hEntries.read_eq hInlined hAcyclic hShared hBoth hDone hEntries']
      · cases hRef.symm.trans (hSameRef.trans hPlain)
  | .siblings _ _, _, hOk, _ => by cases hOk
  | .target hRef _ hSiblings hTarget h, hMeets, hOk, h' => by
    obtain ⟨x, hDone, rfl⟩ := exists_of_map_ok hOk
    obtain ⟨rfl, hNew, hBrought⟩ | ⟨es', rfl, hSameRef, hBoth⟩ := hMeets.map_cases hInlined
    · -- here the first document takes a step that the second one does not take
      have hOther := Option.some.inj ((openRef?_referenceNode ref).symm.trans hRef)
      have hNode := Except.ok.inj (hInlined.resolves.symm.trans (hOther ▸ hTarget))
      rw [hNew, hNode] at h'
      have hSame := h.read_eq hInlined hAcyclic hShared (hBrought.meets_target hRef hTarget) hDone h'
      rw [hSiblings.siblings_eq_nil]
      exact read_node (hShared r _ hBrought) hSame
    · obtain ⟨hPlain, -⟩ | ⟨other, siblings', hRef', hSiblings', hWhat⟩ := h'.map_cases
      · cases hPlain.symm.trans (hSameRef.trans hRef)
      · cases hRef'.symm.trans (hSameRef.trans hRef)
        obtain ⟨u', hTarget', hMeetsThere⟩ := hMeets.of_resolve hInlined hRef hTarget
        have hSame := hSiblings.read_eq hInlined hAcyclic hShared (alongside_erase _ hBoth) rfl
          hSiblings'
        obtain ⟨_, x', -, hFound, hExpands', rfl⟩ | ⟨hOpen, -⟩ := hWhat
        · cases hTarget'.symm.trans hFound
          have hHeld := h.read_eq hInlined hAcyclic hShared hMeetsThere hDone hExpands'
          exact Role.read_withSiblings_congr (Role.read_withOrigin_congr _ hHeld) hSame
        · exact absurd hOpen ((hInlined.acyclic hAcyclic).not_open hTarget')
  | .leave hRef hSiblings hOpen, hMeets, hOk, h' => by
    cases hOk
    obtain ⟨rfl, -, -⟩ | ⟨es', rfl, hSameRef, hBoth⟩ := hMeets.map_cases hInlined
    · cases (openRef?_referenceNode ref).symm.trans hRef
      exact absurd hOpen (hAcyclic.not_open hInlined.resolves)
    · obtain ⟨hPlain, -⟩ | ⟨other, siblings', hRef', hSiblings', hWhat⟩ := h'.map_cases
      · cases hPlain.symm.trans (hSameRef.trans hRef)
      · cases hRef'.symm.trans (hSameRef.trans hRef)
        have hSame := hSiblings.read_eq hInlined hAcyclic hShared (alongside_erase _ hBoth) rfl
          hSiblings'
        obtain ⟨u', _, -, hFound, -⟩ | ⟨-, rfl⟩ := hWhat
        · obtain ⟨u, hTarget⟩ := (hInlined.resolves_iff
            (hMeets.within.refsIn_subset (openRef_mem_refsIn hRef))).mp ⟨u', hFound⟩
          exact absurd hOpen (hAcyclic.not_open hTarget)
        · rw [openNode_eq, openNode_eq]
          exact Role.read_withSiblings_congr rfl hSame
  | .dangling _ _ _ _, _, hOk, _ => by cases hOk

theorem ItemsExpand.read_eq (hInlined : Inlined place ref target document document')
    (hAcyclic : Acyclic document) (hShared : SharedOnly document place) {r : Role}
    {inside inside' : Option String} {at₁ at₂ : String} {index index' : Nat}
    {vs vs' ws ws' : List Value} {o : Except Fault (List Value)} :
    ItemsExpand document inside at₁ index vs o →
      List.Forall₂ (Meets place ref target document r) vs vs' → o = .ok ws →
      ItemsExpand document' inside' at₂ index' vs' (.ok ws') → ws'.map r.read = ws.map r.read
  | .nil, hBoth, hOk, h' => by
    cases hBoth
    cases hOk
    cases h'
    rfl
  | .fail _, _, hOk, _ => by cases hOk
  | .cons head rest, hBoth, hOk, h' => by
    obtain ⟨ws, hDone, rfl⟩ := exists_of_map_ok hOk
    obtain ⟨_, _, hHead, hRest, rfl⟩ := List.forall₂_cons_left_iff.mp hBoth
    obtain ⟨w', ws', head', rest', rfl⟩ := h'.cons_cases
    rw [List.map_cons, List.map_cons, head.read_eq hInlined hAcyclic hShared hHead rfl head',
      rest.read_eq hInlined hAcyclic hShared hRest hDone rest']

theorem EntriesExpand.read_eq (hInlined : Inlined place ref target document document')
    (hAcyclic : Acyclic document) (hShared : SharedOnly document place) {r : Role}
    {inside inside' : Option String} {at₁ at₂ : String} {es es' fs fs' : Entries}
    {o : Except Fault Entries} :
    EntriesExpand document inside at₁ es o →
      Dictionary.Alongside (fun k => Meets place ref target document (r.member k)) es es' → o = .ok fs →
      EntriesExpand document' inside' at₂ es' (.ok fs') → r.readMembers fs' = r.readMembers fs
  | .nil, hBoth, hOk, h' => by
    cases hBoth
    cases hOk
    cases h'
    rfl
  | .fail _, _, hOk, _ => by cases hOk
  | .cons head rest, hBoth, hOk, h' => by
    obtain ⟨fs, hDone, rfl⟩ := exists_of_map_ok hOk
    obtain ⟨⟨_, _⟩, _, ⟨rfl, hHead⟩, hRest, rfl⟩ := List.forall₂_cons_left_iff.mp hBoth
    obtain ⟨w', fs', head', rest', rfl⟩ := h'.cons_cases
    rw [Role.readMembers, Role.readMembers, head.read_eq hInlined hAcyclic hShared hHead rfl head',
      rest.read_eq hInlined hAcyclic hShared hRest hDone rest']

end

end ClientGen.Document

namespace ClientGen.Api

open ClientGen.Document ClientGen.Document.Value ClientGen.Schema

-- ---------------------------------------------------------------------------
-- Endpoints
-- ---------------------------------------------------------------------------

section Endpoints

variable {settings : Settings} {document document' target : Value} {place : List Step} {ref : String}

/-- The endpoints of a document, if its references can be expanded and the result has a normal
form. -/
def endpoints? (settings : Settings) (document : Value) : Option (List Endpoint) :=
  (do
    let expanded ← expand document
    Specification.endpoints <$> Specification.ofDocument settings expanded).outcome.toOption

/-- **Shared components can be written in place.** In a document without cycles, take a reference that
is nothing else and points to a mapping, while no reference points to it or into it. If wherever
expansion brings it, it stands for a path item, a parameter, a request body or a response, or nobody
looks at it, then the document with the target in its place has the same endpoints, or both have
none. -/
theorem endpoints?_inlined (hKeyed : document.wellKeyed = true) (hAcyclic : Acyclic document)
    (hInlined : Inlined place ref target document document') (hShared : SharedOnly document place) :
    endpoints? settings document' = endpoints? settings document := by
  rw [endpoints?, endpoints?, Journal.outcome_bind, Journal.outcome_bind]
  cases hExpanded : (expand document).outcome with
  | error fault =>
    cases hExpanded' : (expand document').outcome with
    | error fault' => rfl
    | ok expanded' =>
      obtain ⟨_, hOk⟩ := (hInlined.exists_expand_ok_iff hKeyed).mp ⟨expanded', hExpanded'⟩
      rw [hExpanded] at hOk
      cases hOk
  | ok expanded =>
    obtain ⟨expanded', hExpanded'⟩ :=
      (hInlined.exists_expand_ok_iff hKeyed).mpr ⟨expanded, hExpanded⟩
    have hSame : Role.document.read expanded' = Role.document.read expanded :=
      Expands.read_eq hInlined hAcyclic hShared (hExpanded ▸ expand_follows document)
        (Meets.root hInlined) rfl (hExpanded' ▸ expand_follows document')
    rw [hExpanded', ok_bind, ok_bind, Journal.outcome_map, Journal.outcome_map,
      endpoints_eq_of_read_eq hSame]

/-- What the values at a place of a document stand for. -/
def roleAt (place : List Step) : Role :=
  place.foldl (fun r step => match step with
    | .key k => r.member k
    | .index _ => r.item) .document

/-- The node is brought to its own place only, if no reference points to it or to something around
it. -/
theorem Brought.role_eq
    (hAbove : ∀ other ∈ refsIn document, ∀ keys ∈ Pointer.keys? other, ¬ pointerSteps keys <+: place)
    {r : Role} {here : List Step} {v : Value} (h : Brought document r here v)
    (hPrefix : here <+: place) : r = roleAt here := by
  induction h with
  | root => rfl
  | member _ _ ih =>
    rw [roleAt, List.foldl_append, ih ((List.prefix_append _ _).trans hPrefix)]
    rfl
  | item _ ih =>
    rw [roleAt, List.foldl_append, ih ((List.prefix_append _ _).trans hPrefix)]
    rfl
  | @target _ _ v _ other keys hBrought hRef hKeys _ _ =>
    refine absurd hPrefix (hAbove other ?_ keys hKeys)
    cases v with
    | map entries => exact hBrought.within.refsIn_subset (openRef_mem_refsIn hRef)
    | _ => cases hRef

theorem sharedOnly_of_untouched (hShared : (roleAt place).shared = true)
    (hAbove : ∀ other ∈ refsIn document, ∀ keys ∈ Pointer.keys? other, ¬ pointerSteps keys <+: place) :
    SharedOnly document place := by
  intro r v hBrought
  rw [hBrought.role_eq hAbove (List.prefix_refl _)]
  exact Or.inl hShared

end Endpoints

/-- The order of a listing. -/
def orderParameter : Value :=
  .map [(.str "name", .str "order"), (.str "in", .str "query"),
    (.str "schema", .map [(.str "type", .str "string"),
      (.str "enum", .list [.str "up", .str "down"])])]

/-- A document whose only operation has one parameter, with the order among its components. -/
def petListing (parameter : Value) : Value :=
  .map [(.str "info", .map []),
    (.str "paths", .map [(.str "/pets", .map [(.str "get", .map [
      (.str "parameters", .list [parameter])])])]),
    (.str "components", .map [(.str "parameters", .map [(.str "Order", orderParameter)])])]

/-- Where the parameter stands. -/
def parameterPlace : List Step :=
  [.key (.str "paths"), .key (.str "/pets"), .key (.str "get"), .key (.str "parameters"), .index 0]

theorem petListing_replaced (parameter parameter' : Value) :
    Replaced parameter parameter' parameterPlace (petListing parameter) (petListing parameter') := by
  have hList : Replaced parameter parameter' [.index 0] (.list [parameter]) (.list [parameter']) :=
    @Replaced.item _ _ [] [] _ _ _ .here
  have hOperation := @Replaced.member _ _ [] [] (.str "parameters") _ _ _ hList
  have hItem := @Replaced.member _ _ [] [] (.str "get") _ _ _ hOperation
  have hPaths := @Replaced.member _ _ [] [] (.str "/pets") _ _ _ hItem
  exact @Replaced.member _ _ [(.str "info", .map [])] [_] (.str "paths") _ _ _ hPaths

/-- The document in which the parameter is a reference. -/
def sharedListing : Value := petListing (referenceNode "#/components/parameters/Order")

theorem endpoints?_petListing :
    sharedListing.wellKeyed = true ∧ Acyclic sharedListing ∧
      Inlined parameterPlace "#/components/parameters/Order" orderParameter sharedListing
        (petListing orderParameter) ∧
      SharedOnly sharedListing parameterPlace ∧ (endpoints? {} sharedListing).isSome = true ∧
      endpoints? {} (petListing orderParameter) = endpoints? {} sharedListing := by
  have hKeyed : sharedListing.wellKeyed = true := by decide +kernel
  have hAcyclic : Acyclic sharedListing := acyclic_of_rank (fun _ => 0) (by decide +kernel)
  have hRefs : ∀ other ∈ refsIn sharedListing,
      Pointer.keys? other = some ["components", "parameters", "Order"] := by
    decide +kernel
  have hInlined : Inlined parameterPlace "#/components/parameters/Order" orderParameter sharedListing
      (petListing orderParameter) := by
    refine ⟨petListing_replaced _ _, by cbv, rfl, ?_⟩
    intro other hMem keys hKeys hPrefix
    cases (hRefs other hMem).symm.trans hKeys
    simp [parameterPlace, pointerSteps] at hPrefix
  have hShared : SharedOnly sharedListing parameterPlace := by
    refine sharedOnly_of_untouched (by decide +kernel) ?_
    intro other hMem keys hKeys hPrefix
    cases (hRefs other hMem).symm.trans hKeys
    simp [parameterPlace, pointerSteps] at hPrefix
  have hExpanded : (expand sharedListing).outcome =
      .ok (petListing (withOrigin "#/components/parameters/Order" orderParameter)) := by
    -- texts are unfolded by equations from all over the library, which is imported whole for that
    cbv
  have hSome : (endpoints? {} sharedListing).isSome = true := by
    rw [endpoints?, Journal.outcome_bind, hExpanded]
    cbv
  exact ⟨hKeyed, hAcyclic, hInlined, hShared, hSome,
    endpoints?_inlined hKeyed hAcyclic hInlined hShared⟩

-- ---------------------------------------------------------------------------
-- Copies that become schemas
-- ---------------------------------------------------------------------------

/-- The schema of a note. -/
def noteSchema : Value :=
  .map [(.str "type", .str "object"), (.str "properties", .map [
    (.str "tone", .map [(.str "type", .str "string"), (.str "enum", .list [.str "calm"])])])]

/-- An operation that sends a body. -/
def sendingOperation (body : Value) : Value :=
  .map [(.str "operationId", .str "send"), (.str "requestBody", body)]

/-- A path item with nothing but such an operation. -/
def sendingItem (body : Value) : Value := .map [(.str "post", sendingOperation body)]

/-- The schema of an object. -/
def objectOf (properties : Value) : Value :=
  .map [(.str "type", .str "object"), (.str "properties", properties)]

/-- A request body with a schema. -/
def jsonBody (schema : Value) : Value :=
  .map [(.str "content", .map [(.str "application/json", .map [(.str "schema", schema)])])]

/-- A document with two operations. The first one sends a body that it may share, and the second one
an object with these properties. -/
def noteDocument (body shared properties : Value) : Value :=
  .map [(.str "info", .map []),
    (.str "paths", .map [(.str "/a", sendingItem body),
      (.str "/b", sendingItem (jsonBody (objectOf properties)))]),
    (.str "components", .map [(.str "requestBodies", .map [(.str "Note", shared)]),
      (.str "schemas", .map [(.str "Note", noteSchema)])])]

/-- The properties are a reference to the first operation, and the shared body is one to the schema. -/
def copiedBody (body : Value) : Value :=
  noteDocument body (referenceNode "#/components/schemas/Note") (referenceNode "#/paths/~1a/post")

/-- The document in which the first body is a reference to the shared one. -/
def sharedBody : Value := copiedBody (referenceNode "#/components/requestBodies/Note")

/-- The document in which the shared body is written in place. -/
def inlinedBody : Value := copiedBody (referenceNode "#/components/schemas/Note")

/-- The members of the first operation as properties. -/
def copiedProperties (body : Value) : Entries :=
  [(.str "operationId", .str "send"), (.str "requestBody", body),
    (.str originKey, .str "#/paths/~1a/post")]

/-- The document expanded, with what the body is expanded to. -/
def expandedCopy (body : Value) : Value :=
  noteDocument body (withOrigin "#/components/schemas/Note" noteSchema) (.map (copiedProperties body))

/-- Where the body of the first operation stands. -/
def bodyPlace : List Step :=
  [.key (.str "paths"), .key (.str "/a"), .key (.str "post"), .key (.str "requestBody")]

theorem copiedBody_replaced (body body' : Value) :
    Replaced body body' bodyPlace (copiedBody body) (copiedBody body') := by
  have hOperation := @Replaced.member body body' [(.str "operationId", .str "send")] []
    (.str "requestBody") _ _ _ .here
  have hItem := @Replaced.member _ _ [] [] (.str "post") _ _ _ hOperation
  have hPaths := @Replaced.member _ _ [] [(.str "/b", sendingItem (jsonBody (objectOf
    (referenceNode "#/paths/~1a/post"))))] (.str "/a") _ _ _ hItem
  exact @Replaced.member _ _ [(.str "info", .map [])] [_] (.str "paths") _ _ _ hPaths

theorem requestBody_jsonBody (properties : Value) (location : String) :
    requestBody (jsonBody (objectOf properties)) location = do
      return (some "application/json", ← bodyParameters (objectOf properties) location) := by
  have hContent : Value.orElse ((jsonBody (objectOf properties)).field? "content") .emptyMap =
      .map [(.str "application/json", .map [(.str "schema", objectOf properties)])] := by
    cbv
  have hType : (bodyContentTypes.findM? fun t => ((Value.map [(.str "application/json",
      .map [(.str "schema", objectOf properties)])]).mentions t : Journal Bool)) =
        pure (some "application/json") := by
    cbv
  have hMedia : (Value.map [(.str "application/json",
      .map [(.str "schema", objectOf properties)])]).part "application/json" =
        .ok (.map [(.str "schema", objectOf properties)]) := by
    cbv
  have hSchema : (Value.orElse (some (.map [(.str "schema", objectOf properties)]))
      .emptyMap).member "schema" = .ok (some (objectOf properties)) := by
    cbv
  rw [requestBody, hContent]
  dsimp only
  rw [hType, pure_bind]
  dsimp only
  rw [hMedia, Journal.lift_ok_bind, hSchema, Journal.lift_ok_bind]
  rfl

/-- A body that is copied from anything but a component schema is one parameter of the second
operation. -/
theorem named_of_expandedCopy {body : Value} {es : List Endpoint} (hSendable : isSendable body = true)
    (hPlain : isReference body = false)
    (h : (Specification.endpointsOf {} (expandedCopy body)).outcome = .ok es) :
    ∃ e ∈ es, Parameter.named e.bodyParameters (.str "requestBody") = true := by
  have hItem : (expandedCopy body).at? [.str "paths", .str "/b"] =
      some (sendingItem (jsonBody (objectOf (.map (copiedProperties body))))) := by
    cbv
  have hOperation : ∀ b, (sendingItem b).field? "post" = some (sendingOperation b) := fun b => by cbv
  have hHeld : ∀ b, ((sendingOperation b).field? "requestBody").getD .null = b := fun b => by cbv
  obtain ⟨own, hOwn, hSubset⟩ := exists_of_endpointsOf h hItem
  obtain ⟨e, he, pathLevel, hEndpoint⟩ := exists_of_ofPathItem hOwn (by decide) (hOperation _)
  obtain ⟨location, hBody⟩ := bodyParameters_of_ofOperation hEndpoint
  rw [hHeld, requestBody_jsonBody] at hBody
  obtain ⟨ps, hParameters, hSame⟩ := Journal.exists_of_bind_ok hBody
  obtain rfl : ps = e.bodyParameters := (Prod.mk.inj (Except.ok.inj hSame)).2
  have hProperties : (objectOf (.map (copiedProperties body))).field? "properties" =
      some (.map (copiedProperties body)) := by
    cbv
  exact ⟨e, hSubset he, bodyParameters_named hProperties (by cbv) (by cbv)
    (List.mem_cons_of_mem _ List.mem_cons_self) hSendable hPlain hParameters⟩

/-- **A copy can become a schema.** The body of the first operation is a reference to a shared one, and
no other reference points to it or below it. But the second operation has the members of the first one
as properties of what it sends. Once the shared body is written in place, the property with the name
of the body refers to a component schema, and so it is flattened. -/
theorem endpoints?_copiedBody :
    sharedBody.wellKeyed = true ∧ Acyclic sharedBody ∧ RefsAreTexts sharedBody ∧
      "#/components/requestBodies/Note".startsWith schemaPointer = false ∧
      roleAt bodyPlace = .requestBody ∧
      Inlined bodyPlace "#/components/requestBodies/Note" (referenceNode "#/components/schemas/Note")
        sharedBody inlinedBody ∧
      endpoints? {} inlinedBody ≠ endpoints? {} sharedBody := by
  have hKeyed : sharedBody.wellKeyed = true := by decide +kernel
  have hAcyclic : Acyclic sharedBody :=
    acyclic_of_rank (fun ref => if ref = "#/paths/~1a/post" then 2
      else if ref = "#/components/requestBodies/Note" then 1 else 0) (by decide +kernel)
  have hRefs : ∀ other ∈ refsIn sharedBody,
      Pointer.keys? other ∈ [some ["paths", "/a", "post"],
        some ["components", "requestBodies", "Note"], some ["components", "schemas", "Note"]] := by
    decide +kernel
  have hInlined : Inlined bodyPlace "#/components/requestBodies/Note"
      (referenceNode "#/components/schemas/Note") sharedBody inlinedBody := by
    refine ⟨copiedBody_replaced _ _, by cbv, rfl, ?_⟩
    intro other hMem keys hKeys hPrefix
    have hOneOf := hRefs other hMem
    rw [Option.mem_def.mp hKeys] at hOneOf
    simp only [List.mem_cons, Option.some.injEq, List.not_mem_nil, or_false] at hOneOf
    rcases hOneOf with rfl | rfl | rfl <;> simp [bodyPlace, pointerSteps] at hPrefix
  have hExpanded : (expand sharedBody).outcome =
      .ok (expandedCopy (withOrigin "#/components/requestBodies/Note" noteSchema)) :=
    outcome_expand_of_plainly hAcyclic fun deeper => (by cbv : expandPlainly (deeper + 24) _ = _)
  have hExpanded' : (expand inlinedBody).outcome =
      .ok (expandedCopy (withOrigin "#/components/schemas/Note" noteSchema)) :=
    outcome_expand_of_plainly (hInlined.acyclic hAcyclic) fun deeper =>
      (by cbv : expandPlainly (deeper + 24) _ = _)
  have hFlattened : (endpoints? {} inlinedBody).map
      (fun es => es.map fun e => Parameter.named e.bodyParameters (.str "requestBody")) =
        some [false, false] := by
    rw [endpoints?, Journal.outcome_bind, hExpanded']
    cbv
  refine ⟨hKeyed, hAcyclic, ?_, by decide +kernel, by decide +kernel, hInlined, ?_⟩
  · unfold RefsAreTexts
    decide +kernel
  · intro hSame
    obtain ⟨es, hEndpoints, hNames⟩ := Option.map_eq_some_iff.mp hFlattened
    have hCopied := hSame.symm.trans hEndpoints
    rw [endpoints?, Journal.outcome_bind, hExpanded, ok_bind, Journal.outcome_map] at hCopied
    obtain ⟨s, hSpecification, rfl⟩ := exists_of_map_ok (ok_of_toOption hCopied)
    obtain ⟨e, he, hNamed⟩ := named_of_expandedCopy (by decide +kernel) (by decide +kernel)
      (endpointsOf_of_ofDocument hSpecification)
    have hMem : true ∈ s.endpoints.map fun e =>
        Parameter.named e.bodyParameters (.str "requestBody") :=
      List.mem_map.mpr ⟨e, he, hNamed⟩
    rw [hNames] at hMem
    exact absurd hMem (by decide)

end ClientGen.Api
