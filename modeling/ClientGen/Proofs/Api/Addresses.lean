import ClientGen.Proofs.Api.Normal

/-!
# Addresses are unique

A side table that is keyed by address serves each parameter of a specification on
its own only if no two of them share one. In a normal specification they do not:
the owner tells endpoints apart, the slot tells slots apart, and below a slot the
chain of names is a path in the tree of parameters, in which siblings differ.

Address keys are compared part by part and names as data, so equality of
addresses is only used for textual ones (`Address.beq_iff`).

Main results:

* `walk_unique` — below one address the walk of a parameter visits no address twice.
* `allParameters_unique` — neither does the walk of an endpoint.
* `Specification.Normal.addresses_unique` — nor that of all endpoints together.
-/

namespace ClientGen.Api

open ClientGen.Document ClientGen.Document.Value ClientGen.Schema

-- ---------------------------------------------------------------------------
-- Textual addresses
-- ---------------------------------------------------------------------------

namespace Address

/-- All names in the address are texts. -/
def Textual (a : Address) : Prop := ∀ name ∈ a.names, name.isText = true

/-- The address is that of `a` or of a parameter inside. -/
structure Below (a b : Address) : Prop where
  owner : b.owner = a.owner
  slot  : b.slot = a.slot
  names : a.names <+: b.names

theorem Below.refl (a : Address) : a.Below a := ⟨rfl, rfl, List.prefix_refl _⟩

theorem below_child {a b : Address} {name : Value} (h : (a.child name).Below b) : a.Below b :=
  ⟨h.owner, h.slot, (List.prefix_append _ _).trans h.names⟩

/-- A parameter inside has a longer address. -/
theorem ne_of_below_child {a b : Address} {name : Value} (h : (a.child name).Below b) : a ≠ b := by
  rintro rfl
  have hLength := h.names.length_le
  simp only [child, List.length_append, List.length_singleton] at hLength
  omega

/-- An address below two siblings tells which of them it is below. -/
theorem name_eq_of_below {a b : Address} {m n : Value} (hm : (a.child m).Below b)
    (hn : (a.child n).Below b) : m = n := by
  have hSame : (a.child m).names = (a.child n).names := by
    rcases List.prefix_or_prefix_of_prefix hm.names hn.names with h | h
    · exact h.eq_of_length (by simp [child])
    · exact (h.eq_of_length (by simp [child])).symm
  exact List.singleton_inj.mp (List.append_cancel_left hSame)

theorem Textual.child {a : Address} {name : Value} (ha : a.Textual) (hName : name.isText = true) :
    (a.child name).Textual := by
  intro n hn
  rcases List.mem_append.mp hn with hn | hn
  · exact ha n hn
  · rw [List.mem_singleton.mp hn]
    exact hName

/-- Being the same as a text and being equal to it are one. -/
theorem same_iff_eq {v w : Value} (hText : v.isText = true ∨ w.isText = true) :
    Value.same v w = true ↔ v = w := by
  rcases hText with hText | hText
  · cases v with
    | str s => cases w <;> simp [Value.same, Value.sameScalar]
    | _ => cases hText
  · cases w with
    | str s => exact beq_str
    | _ => cases hText

theorem sameItems_iff_eq {xs ys : List Value}
    (hText : (∀ x ∈ xs, x.isText = true) ∨ ∀ y ∈ ys, y.isText = true) :
    sameItems xs ys = true ↔ xs = ys := by
  induction xs generalizing ys with
  | nil => cases ys <;> simp [sameItems]
  | cons x xs ih =>
    cases ys with
    | nil => simp [sameItems]
    | cons y ys =>
      rw [List.forall_mem_cons, List.forall_mem_cons] at hText
      have hHead := same_iff_eq (hText.imp And.left And.left)
      have hRest := ih (hText.imp And.right And.right)
      rw [sameItems, Bool.and_eq_true, hHead, hRest, List.cons.injEq]

/-- To compare with a textual address is to ask for equality. -/
theorem beq_iff {a b : Address} (hText : a.Textual ∨ b.Textual) : (a == b) = true ↔ a = b := by
  obtain ⟨owner, slot, names⟩ := a
  obtain ⟨owner', slot', names'⟩ := b
  show ((owner == owner' && slot == slot') && sameItems names names') = true ↔ _
  rw [Bool.and_eq_true, Bool.and_eq_true, sameItems_iff_eq hText, beq_iff_eq,
    beq_iff_eq, Address.mk.injEq, and_assoc]

end Address

-- ---------------------------------------------------------------------------
-- Walks
-- ---------------------------------------------------------------------------

theorem walkAll_eq_flatMap (a : Address) (ps : List Parameter) :
    Parameter.walkAll a ps = ps.flatMap fun p => p.walk (a.child p.name) := by
  induction ps with
  | nil => rfl
  | cons p ps ih => rw [Parameter.walkAll, ih, List.flatMap_cons]

/-- A walk visits the parameter itself and then goes through its properties. -/
theorem walk_eq_cons (a : Address) (p : Parameter) :
    p.walk a = (a, p) :: p.properties.flatMap fun q => q.walk (a.child q.name) := by
  obtain ⟨kind, nullable, name, description, enumValues, properties, parent⟩ := p
  rw [Parameter.walk, walkAll_eq_flatMap]

theorem mem_walk_self (a : Address) (p : Parameter) : (a, p) ∈ p.walk a := by
  rw [walk_eq_cons]
  exact List.mem_cons_self

/-- Places with different textual addresses, all of them at or below `a`. -/
structure Unique (a : Address) (places : List (Address × Parameter)) : Prop where
  apart   : places.Pairwise fun x y => x.1 ≠ y.1
  textual : ∀ x ∈ places, x.1.Textual
  below   : ∀ x ∈ places, a.Below x.1

/-- If walks of siblings visit no address twice, neither does going through all siblings. -/
theorem siblings_unique {a : Address} {ps : List Parameter} (hSiblings : SiblingsApart ps)
    (hText : ∀ p ∈ ps, p.name.isText = true)
    (hEach : ∀ p ∈ ps, Unique (a.child p.name) (p.walk (a.child p.name))) :
    Unique a (ps.flatMap fun p => p.walk (a.child p.name)) := by
  refine ⟨?_, ?_, ?_⟩
  · rw [List.pairwise_flatMap]
    refine ⟨fun p hp => (hEach p hp).apart, ?_⟩
    refine hSiblings.imp_of_mem ?_
    intro p q hp hq hNames x hx y hy hSame
    -- an address below both of them would make the names equal
    have hEqual : p.name = q.name := by
      refine Address.name_eq_of_below ((hEach p hp).below x hx) ?_
      rw [hSame]
      exact (hEach q hq).below y hy
    have hQ := hText q hq
    rw [hEqual] at hNames
    cases hName : q.name with
    | str s =>
      rw [hName, beq_str.mpr rfl] at hNames
      cases hNames
    | _ =>
      rw [hName] at hQ
      cases hQ
  · intro x hx
    obtain ⟨p, hp, hx⟩ := List.mem_flatMap.mp hx
    exact (hEach p hp).textual x hx
  · intro x hx
    obtain ⟨p, hp, hx⟩ := List.mem_flatMap.mp hx
    exact Address.below_child ((hEach p hp).below x hx)

/-- **Walks are free of repetition.** The walk of a parameter whose siblings differ at
every depth visits no address twice. -/
theorem walk_unique {p : Parameter} (hApart : Apart p) {a : Address} (ha : a.Textual)
    (hText : ∀ x ∈ p.walk a, x.2.name.isText = true) : Unique a (p.walk a) := by
  induction hApart generalizing a with
  | intro hSiblings hInside ih =>
    rename_i p
    rw [walk_eq_cons] at hText ⊢
    have hBelow : ∀ q ∈ p.properties, ∀ x ∈ q.walk (a.child q.name), x.2.name.isText = true := by
      intro q hq x hx
      exact hText x (List.mem_cons_of_mem _ (List.mem_flatMap.mpr ⟨q, hq, hx⟩))
    have hNames : ∀ q ∈ p.properties, q.name.isText = true := by
      intro q hq
      exact hBelow q hq _ (mem_walk_self (a.child q.name) q)
    have hEach : ∀ q ∈ p.properties, Unique (a.child q.name) (q.walk (a.child q.name)) := by
      intro q hq
      exact ih q hq (ha.child (hNames q hq)) (hBelow q hq)
    have hRest := siblings_unique hSiblings hNames hEach
    refine ⟨List.pairwise_cons.mpr ⟨?_, hRest.apart⟩, ?_, ?_⟩
    · intro x hx
      obtain ⟨q, hq, hx⟩ := List.mem_flatMap.mp hx
      exact Address.ne_of_below_child ((hEach q hq).below x hx)
    · intro x hx
      rcases List.mem_cons.mp hx with rfl | hx
      · exact ha
      · exact hRest.textual x hx
    · intro x hx
      rcases List.mem_cons.mp hx with rfl | hx
      · exact Address.Below.refl a
      · exact hRest.below x hx

-- ---------------------------------------------------------------------------
-- Endpoints
-- ---------------------------------------------------------------------------

/-- All parameters have texts as names, as parameters do. -/
def Endpoint.Textual (e : Endpoint) : Prop := ∀ place ∈ e.allParameters, place.2.name.isText = true

/-- The parameters of a slot, nested ones included. -/
def Endpoint.slotParameters (e : Endpoint) (slot : Slot) : List (Address × Parameter) :=
  (e.parameters slot).flatMap fun p => p.walk (Address.child ⟨e.key, slot.name, []⟩ p.name)

theorem allParameters_eq_flatMap (e : Endpoint) :
    e.allParameters = Slot.all.flatMap e.slotParameters := rfl

theorem Slot.mem_all (slot : Slot) : slot ∈ Slot.all := by
  cases slot <;> decide

theorem Slot.name_inj {s t : Slot} (h : s.name = t.name) : s = t := by
  cases s <;> cases t <;> first | rfl | exact absurd h (by decide)

/-- A parameter of a slot is gone through under the address that its slot and its name give. -/
theorem mem_allParameters {e : Endpoint} {slot : Slot} {p : Parameter} (hp : p ∈ e.parameters slot)
    {place : Address × Parameter}
    (hPlace : place ∈ p.walk (Address.child ⟨e.key, slot.name, []⟩ p.name)) :
    place ∈ e.allParameters := by
  rw [allParameters_eq_flatMap, List.mem_flatMap]
  exact ⟨slot, Slot.mem_all slot, List.mem_flatMap.mpr ⟨p, hp, hPlace⟩⟩

theorem Endpoint.Textual.names {e : Endpoint} (hText : e.Textual) (slot : Slot) :
    ∀ p ∈ e.parameters slot, p.name.isText = true := by
  intro p hp
  exact hText _ (mem_allParameters hp (mem_walk_self _ p))

theorem slotParameters_unique {e : Endpoint} {slot : Slot} (hApart : AllApart (e.parameters slot))
    (hText : e.Textual) : Unique ⟨e.key, slot.name, []⟩ (e.slotParameters slot) := by
  refine siblings_unique hApart.siblings (hText.names slot) ?_
  intro p hp
  have hStart : (Address.child ⟨e.key, slot.name, []⟩ p.name).Textual := by
    intro name hName
    rw [List.mem_singleton.mp hName]
    exact hText.names slot p hp
  refine walk_unique (hApart.inside p hp) hStart ?_
  intro x hx
  exact hText x (mem_allParameters hp hx)

/-- No two parameters of an endpoint have the same address, in whatever slots they
are and at whatever depth. -/
theorem allParameters_unique {e : Endpoint} (hApart : ∀ slot, AllApart (e.parameters slot))
    (hText : e.Textual) :
    e.allParameters.Pairwise (fun x y => x.1 ≠ y.1) ∧
      ∀ x ∈ e.allParameters, x.1.Textual ∧ x.1.owner = e.key ∧ ∃ slot : Slot, x.1.slot = slot.name := by
  have hSlot := fun slot => slotParameters_unique (hApart slot) hText
  rw [allParameters_eq_flatMap]
  constructor
  · rw [List.pairwise_flatMap]
    refine ⟨fun slot _ => (hSlot slot).apart, ?_⟩
    have hSlots : Slot.all.Pairwise fun s t => s ≠ t := by decide
    refine hSlots.imp ?_
    intro s t hDiffer x hx y hy hSame
    have hx := ((hSlot s).below x hx).slot
    have hy := ((hSlot t).below y hy).slot
    rw [hSame] at hx
    exact hDiffer (Slot.name_inj (hx.symm.trans hy))
  · intro x hx
    obtain ⟨slot, -, hx⟩ := List.mem_flatMap.mp hx
    have hBelow := (hSlot slot).below x hx
    exact ⟨(hSlot slot).textual x hx, hBelow.owner, slot, hBelow.slot⟩

/-- **Addresses are unique.** In a normal specification whose parameters have texts as
names no two parameters have the same address. -/
theorem Specification.Normal.addresses_unique {s : Specification} (hNormal : s.Normal)
    (hText : ∀ e ∈ s.endpoints, e.Textual) :
    (s.endpoints.flatMap Endpoint.allParameters).Pairwise fun x y => x.1 ≠ y.1 := by
  have hEach := fun e he => allParameters_unique (hNormal.parameters e he) (hText e he)
  rw [List.pairwise_flatMap]
  refine ⟨fun e he => (hEach e he).1, ?_⟩
  have hKeys := hNormal.keys
  rw [List.nodup_iff_pairwise_ne, List.pairwise_map] at hKeys
  refine hKeys.imp_of_mem ?_
  intro e f he hf hDiffer x hx y hy hSame
  have hOwnerX := ((hEach e he).2 x hx).2.1
  have hOwnerY := ((hEach f hf).2 y hy).2.1
  rw [hSame] at hOwnerX
  exact hDiffer (hOwnerX.symm.trans hOwnerY)

end ClientGen.Api
