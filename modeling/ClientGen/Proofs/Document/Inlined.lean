import ClientGen.Proofs.Document.Expansion
import Mathlib.Data.List.Infix

/-!
# Targets written in place

A reference without siblings can be replaced by the target it points to, as it stands in
the document. The reference graph of the new document is a part of the old one with a
step left out: where the node was, the references of its target are met directly. So no
cycle comes up, the same references lead nowhere, and the new document can be expanded
just when the old one can.

What stands at a place of one document stands at that place of the other, unless the place
is on the way to the node; then both hold a value that differs at the node only. This
needs that no reference points to the node or into it.

Main results:

* `Inlined.resolve_cases` — targets are the same or differ at the node only.
* `Inlined.acyclic` — no reference leads back to itself in the new document either.
* `Inlined.exists_expand_ok_iff` — both documents can be expanded or none of them.
-/

namespace ClientGen.Document

open ClientGen.Schema ClientGen.Document.Value

-- ---------------------------------------------------------------------------
-- Replacing a node
-- ---------------------------------------------------------------------------

/-- A step down into a value. -/
inductive Step where
  | key (k : Value)
  | index (i : Nat)

/-- The steps that the keys of a pointer take. -/
def pointerSteps (keys : List String) : List Step := keys.map fun key => .key (.str key)

/-- The second value is the first one with the node at the end of these steps replaced. -/
inductive Replaced (node new : Value) : List Step → Value → Value → Prop
  | here : Replaced node new [] node new
  | member {before after : Entries} {k v w : Value} {place : List Step}
      (h : Replaced node new place v w) :
      Replaced node new (.key k :: place) (.map (before ++ (k, v) :: after))
        (.map (before ++ (k, w) :: after))
  | item {before after : List Value} {v w : Value} {place : List Step}
      (h : Replaced node new place v w) :
      Replaced node new (.index before.length :: place) (.list (before ++ v :: after))
        (.list (before ++ w :: after))

section Replaced

variable {node new v w : Value} {place : List Step} {ref : String}

/-- Looking up finds the same or what was replaced. -/
theorem get?_replaced_cases (before after : Entries) (k v w q : Value) :
    Dictionary.get? (before ++ (k, w) :: after) q = Dictionary.get? (before ++ (k, v) :: after) q ∨
      (k == q) = true ∧ Dictionary.get? (before ++ (k, v) :: after) q = some v ∧
        Dictionary.get? (before ++ (k, w) :: after) q = some w := by
  induction before with
  | nil =>
    rw [List.nil_append, List.nil_append, Dictionary.get?, Dictionary.get?]
    by_cases hKey : (k == q) = true
    · rw [if_pos hKey, if_pos hKey]
      exact Or.inr ⟨hKey, rfl, rfl⟩
    · rw [if_neg hKey, if_neg hKey]
      exact Or.inl rfl
  | cons e before ih =>
    rw [List.cons_append, List.cons_append, Dictionary.get?, Dictionary.get?]
    split
    · exact Or.inl rfl
    · exact ih

theorem Replaced.symm (h : Replaced node new place v w) : Replaced new node place w v := by
  induction h with
  | here => exact .here
  | member _ ih => exact .member ih
  | item _ ih => exact .item ih

theorem Replaced.within (h : Replaced node new place v w) : Within node v := by
  induction h with
  | here => exact .refl _
  | member _ ih => exact .entry (List.mem_append_right _ List.mem_cons_self) ih
  | item _ ih => exact .item (List.mem_append_right _ List.mem_cons_self) ih

/-- Replacing a node by anything but a text makes no texts. -/
theorem Replaced.isText_eq_false (h : Replaced node new place v w) (hNew : new.isText = false) :
    w.isText = false := by
  cases h with
  | here => exact hNew
  | member _ => rfl
  | item _ => rfl

theorem Replaced.wellKeyed (h : Replaced node new place v w) (hNew : new.wellKeyed = true)
    (hKeyed : v.wellKeyed = true) : w.wellKeyed = true := by
  induction h with
  | here => exact hNew
  | @member before after k v w _ _ ih =>
    obtain ⟨hDistinct, hKeys⟩ := wellKeyed_map.mp hKeyed
    have hSameKeys : Dictionary.keys (before ++ (k, w) :: after) =
        Dictionary.keys (before ++ (k, v) :: after) := by
      simp [Dictionary.keys]
    refine wellKeyed_map.mpr ⟨?_, ?_⟩
    · rw [Dictionary.distinct_iff_keys, hSameKeys, ← Dictionary.distinct_iff_keys]
      exact hDistinct
    · rw [Keyed, List.forall_mem_append, List.forall_mem_cons] at hKeys ⊢
      obtain ⟨hBefore, hHere, hAfter⟩ := hKeys
      exact ⟨hBefore, ⟨hHere.1, ih hHere.2⟩, hAfter⟩
  | item _ ih =>
    have hItems := wellKeyed_list.mp hKeyed
    rw [List.forall_mem_append, List.forall_mem_cons] at hItems
    obtain ⟨hBefore, hHere, hAfter⟩ := hItems
    refine wellKeyed_list.mpr ?_
    rw [List.forall_mem_append, List.forall_mem_cons]
    exact ⟨hBefore, ih hHere, hAfter⟩

/-- A mapping around the node is the same reference as before. -/
theorem Replaced.openRef?_eq {before after : Entries} {k : Value} (h : Replaced node new place v w)
    (hNode : node.isText = false) (hNew : new.isText = false) :
    openRef? (.map (before ++ (k, w) :: after)) = openRef? (.map (before ++ (k, v) :: after)) := by
  rw [openRef?, openRef?, field?, field?]
  rcases get?_replaced_cases before after k v w (.str refKey) with hSame | ⟨-, hOld, hNew'⟩
  · rw [hSame]
  · have hw := h.isText_eq_false hNew
    have hv := h.symm.isText_eq_false hNode
    rw [hOld, hNew']
    cases v with
    | str _ => cases hv
    | _ =>
      cases w with
      | str _ => cases hw
      | _ => rfl

/-- What refers in the new value did so in the old one, or does so in the new node. -/
theorem Replaced.mem_refsIn (h : Replaced node new place v w) (hNode : node.isText = false)
    (hNew : new.isText = false) (hMem : ref ∈ refsIn w) : ref ∈ refsIn v ∨ ref ∈ refsIn new := by
  induction h with
  | here => exact Or.inr hMem
  | @member before after k v w _ hInner ih =>
    rw [mem_refsIn_map, hInner.openRef?_eq hNode hNew] at hMem
    obtain hOpen | ⟨e, he, hMem⟩ := hMem
    · exact Or.inl (mem_refsIn_map.mpr (Or.inl hOpen))
    · rcases List.mem_append.mp he with hBefore | he
      · exact Or.inl (mem_refsIn_map.mpr (Or.inr ⟨e, List.mem_append_left _ hBefore, hMem⟩))
      · rcases List.mem_cons.mp he with rfl | hAfter
        · refine (ih hMem).imp_left fun hOld => mem_refsIn_map.mpr (Or.inr ⟨(k, v), ?_, hOld⟩)
          exact List.mem_append_right _ List.mem_cons_self
        · refine Or.inl (mem_refsIn_map.mpr (Or.inr ⟨e, ?_, hMem⟩))
          exact List.mem_append_right _ (List.mem_cons_of_mem _ hAfter)
  | @item before after v w _ hInner ih =>
    rw [refsIn, mem_refsInItems] at hMem
    obtain ⟨u, hu, hMem⟩ := hMem
    rw [refsIn, mem_refsInItems]
    rcases List.mem_append.mp hu with hBefore | hu
    · exact Or.inl ⟨u, List.mem_append_left _ hBefore, hMem⟩
    · rcases List.mem_cons.mp hu with rfl | hAfter
      · exact (ih hMem).imp_left fun hOld =>
          ⟨v, List.mem_append_right _ List.mem_cons_self, hOld⟩
      · exact Or.inl ⟨u, List.mem_append_right _ (List.mem_cons_of_mem _ hAfter), hMem⟩

/-- Keys that do not lead to the node or into it lead to the same value in both, or to one around
the node. -/
theorem Replaced.follow?_cases (h : Replaced node new place v w) {keys : List String}
    (hAside : ¬ place <+: pointerSteps keys) :
    Pointer.follow? w keys = Pointer.follow? v keys ∨
      ∃ rest u u', place = pointerSteps keys ++ rest ∧ Pointer.follow? v keys = some u ∧
        Pointer.follow? w keys = some u' ∧ Replaced node new rest u u' := by
  induction h generalizing keys with
  | here => exact absurd List.nil_prefix hAside
  | @member before after k v w place hInner ih =>
    cases keys with
    | nil => exact Or.inr ⟨_, _, _, rfl, rfl, rfl, .member hInner⟩
    | cons key keys =>
      rw [Pointer.follow?, Pointer.follow?, field?, field?]
      rcases get?_replaced_cases before after k v w (.str key) with hSame | ⟨hKey, hOld, hNew⟩
      · exact Or.inl (by rw [hSame])
      · obtain rfl := beq_str.mp hKey
        have hInside : ¬ place <+: pointerSteps keys := fun hPrefix =>
          hAside (List.cons_prefix_cons.mpr ⟨rfl, hPrefix⟩)
        rw [hOld, hNew, Option.bind_some, Option.bind_some]
        rcases ih hInside with hSame | ⟨rest, u, u', rfl, hBoth⟩
        · exact Or.inl hSame
        · exact Or.inr ⟨rest, u, u', rfl, hBoth⟩
  | item hInner =>
    cases keys with
    | nil => exact Or.inr ⟨_, _, _, rfl, rfl, rfl, .item hInner⟩
    | cons key keys => exact Or.inl rfl

end Replaced

/-- A target is where the keys of its reference lead. -/
theorem exists_of_resolve_ok {document target : Value} {ref : String}
    (h : resolve document ref = .ok target) :
    ∃ keys, Pointer.keys? ref = some keys ∧ Pointer.follow? document keys = some target := by
  rw [resolve] at h
  cases hKeys : Pointer.keys? ref with
  | none =>
    rw [hKeys] at h
    cases h
  | some keys =>
    rw [hKeys] at h
    dsimp only at h
    cases hFollow : Pointer.follow? document keys with
    | none =>
      rw [hFollow] at h
      cases h
    | some w =>
      rw [hFollow] at h
      cases h
      exact ⟨keys, rfl, hFollow⟩

-- ---------------------------------------------------------------------------
-- References replaced by their targets
-- ---------------------------------------------------------------------------

/-- A node that is a reference and nothing else. -/
def referenceNode (ref : String) : Value := .map [(.str refKey, .str ref)]

theorem openRef?_referenceNode (ref : String) : openRef? (referenceNode ref) = some ref :=
  openRef?_map.mpr (by rw [Dictionary.get?, if_pos (beq_str.mpr rfl)])

/-- The second document is the first one with the reference at the place replaced by its target, a
mapping. No reference of the document points to the place or below it. -/
structure Inlined (place : List Step) (ref : String) (target document document' : Value) : Prop where
  replaced : Replaced (referenceNode ref) target place document document'
  resolves : resolve document ref = .ok target
  mapping  : target.isMapping = true
  aside    : ∀ other ∈ refsIn document, ∀ keys ∈ Pointer.keys? other,
    ¬ place <+: pointerSteps keys

namespace Inlined

variable {place : List Step} {ref other : String} {target document document' : Value}

theorem isText_eq_false (h : Inlined place ref target document document') : target.isText = false := by
  have hMapping := h.mapping
  cases target with
  | map _ => rfl
  | _ => cases hMapping

/-- The new document has no other references than the old one. -/
theorem refsIn_subset (h : Inlined place ref target document document') :
    refsIn document' ⊆ refsIn document := by
  intro other hMem
  rcases h.replaced.mem_refsIn rfl h.isText_eq_false hMem with hOld | hTarget
  · exact hOld
  · exact (resolve_within h.resolves).refsIn_subset hTarget

/-- It lacks none but the one that was replaced. -/
theorem mem_refsIn_cases (h : Inlined place ref target document document')
    (hMem : other ∈ refsIn document) : other ∈ refsIn document' ∨ other = ref := by
  rcases h.replaced.symm.mem_refsIn h.isText_eq_false rfl hMem with hNew | hNode
  · exact Or.inl hNew
  · refine Or.inr ?_
    obtain hOpen | ⟨e, he, hInner⟩ := mem_refsIn_map.mp hNode
    · exact Option.some.inj (hOpen.symm.trans (openRef?_referenceNode ref))
    · rw [List.mem_singleton.mp he] at hInner
      cases hInner

theorem wellKeyed (h : Inlined place ref target document document')
    (hKeyed : document.wellKeyed = true) : document'.wellKeyed = true :=
  h.replaced.wellKeyed ((resolve_within h.resolves).wellKeyed hKeyed) hKeyed

/-- A reference points to the same in both documents, or to values around the node. -/
theorem resolve_cases (h : Inlined place ref target document document')
    (hMem : other ∈ refsIn document) :
    resolve document' other = resolve document other ∨
      ∃ keys rest u u', Pointer.keys? other = some keys ∧ place = pointerSteps keys ++ rest ∧
        resolve document other = .ok u ∧ resolve document' other = .ok u' ∧
        Replaced (referenceNode ref) target rest u u' := by
  cases hKeys : Pointer.keys? other with
  | none => exact Or.inl (by rw [resolve, resolve, hKeys])
  | some keys =>
    rcases h.replaced.follow?_cases (h.aside other hMem keys hKeys) with
      hSame | ⟨rest, u, u', rfl, hOld, hNew, hInner⟩
    · exact Or.inl (by rw [resolve, resolve, hKeys]; dsimp only; rw [hSame])
    · refine Or.inr ⟨keys, rest, u, u', rfl, rfl, ?_, ?_, hInner⟩
      · rw [resolve, hKeys]
        dsimp only
        rw [hOld]
      · rw [resolve, hKeys]
        dsimp only
        rw [hNew]

/-- A step in the new reference graph is one step in the old graph, or two with the replaced reference
between them. -/
theorem transGen_of_refers (h : Inlined place ref target document document') {a b : String}
    (ha : a ∈ refsIn document) (hStep : Refers document' a b) :
    Relation.TransGen (Refers document) a b := by
  rw [Refers, refsFrom] at hStep
  rcases h.resolve_cases ha with hSame | ⟨_, _, u, u', -, -, hOld, hNew, hInner⟩
  · rw [hSame] at hStep
    exact .single hStep
  · rw [hNew] at hStep
    rcases hInner.mem_refsIn rfl h.isText_eq_false hStep with hMem | hMem
    · exact .single (refers_of_mem hOld hMem)
    · have hNode : ref ∈ refsIn u :=
        hInner.within.refsIn_subset (openRef_mem_refsIn (openRef?_referenceNode ref))
      exact .tail (.single (refers_of_mem hOld hNode)) (refers_of_mem h.resolves hMem)

/-- **No new cycles.** Writing a target in place brings no reference back to itself. -/
theorem acyclic (h : Inlined place ref target document document') (hAcyclic : Acyclic document) :
    Acyclic document' := by
  intro a hCycle
  refine hAcyclic a ?_
  have hPath : ∀ {b : String}, Relation.TransGen (Refers document') a b →
      Relation.TransGen (Refers document) a b := by
    intro b hPath
    have ha := h.refsIn_subset hCycle.mem_refsIn
    induction hPath with
    | single hFirst => exact h.transGen_of_refers ha hFirst
    | tail hBefore hLast ih =>
      obtain ⟨_, -, hInto⟩ := Relation.TransGen.tail'_iff.mp hBefore
      exact ih.trans (h.transGen_of_refers (h.refsIn_subset hInto.mem_refsIn) hLast)
  exact hPath hCycle

/-- The same references have a target. -/
theorem resolves_iff (h : Inlined place ref target document document')
    (hMem : other ∈ refsIn document) :
    (∃ u', resolve document' other = .ok u') ↔ ∃ u, resolve document other = .ok u := by
  rcases h.resolve_cases hMem with hSame | ⟨_, _, u, u', -, -, hOld, hNew, -⟩
  · rw [hSame]
  · exact iff_of_true ⟨u', hNew⟩ ⟨u, hOld⟩

/-- The same references lead nowhere. -/
theorem dangling_iff (h : Inlined place ref target document document')
    (hMem : other ∈ refsIn document) : Dangling document' other ↔ Dangling document other := by
  rcases h.resolve_cases hMem with hSame | ⟨_, _, u, u', -, -, hOld, hNew, -⟩
  · rw [Dangling, Dangling, hSame]
  · exact iff_of_false (not_dangling_of_resolve hNew) (not_dangling_of_resolve hOld)

/-- Both documents can be expanded or none of them. -/
theorem exists_expand_ok_iff (h : Inlined place ref target document document')
    (hKeyed : document.wellKeyed = true) :
    (∃ expanded, (expand document').outcome = .ok expanded) ↔
      ∃ expanded, (expand document).outcome = .ok expanded := by
  rw [Document.exists_expand_ok_iff hKeyed, Document.exists_expand_ok_iff (h.wellKeyed hKeyed)]
  constructor
  · intro hSound other hMem
    rcases h.mem_refsIn_cases hMem with hNew | rfl
    · exact fun hDangling => hSound other hNew ((h.dangling_iff hMem).mpr hDangling)
    · exact not_dangling_of_resolve h.resolves
  · intro hSound other hMem hDangling
    have hOld := h.refsIn_subset hMem
    exact hSound other hOld ((h.dangling_iff hOld).mp hDangling)

end Inlined

end ClientGen.Document
