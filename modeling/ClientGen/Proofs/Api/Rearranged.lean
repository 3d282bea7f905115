import ClientGen.Proofs.Api.Addresses
import ClientGen.Proofs.Matched
import ClientGen.Proofs.Schema.Alike

/-!
# Rearranged specifications

The order in which a document lists its operations, its component schemas, the
parameters of a slot and the values of an enumeration carries no meaning.
`Rearranged` relates two specifications that differ in these orders only, as far
as the enumerations are concerned: what is not read when enumerations are
collected may differ in any way.

Main results:

* `walk_alike` / `allParameters_alike` — going through the parameters visits the same
  places with the same names, descriptions and values, in some other order.
-/

namespace ClientGen.Api

open ClientGen.Document ClientGen.Document.Value

/-- The parameters have the same name, the same description, the same values in any
order and number, and properties that are alike in any order. -/
inductive Parameter.Alike : Parameter → Parameter → Prop
  | intro {p q : Parameter} (name : p.name = q.name) (description : p.description = q.description)
      (values : SameMembers (p.enumValues.getD []) (q.enumValues.getD []))
      (properties : Matched Parameter.Alike p.properties q.properties) : Parameter.Alike p q

/-- The endpoints are the same operation, and in each slot their parameters are alike in
any order. -/
structure Endpoint.Alike (e f : Endpoint) : Prop where
  method     : e.method = f.method
  path       : e.path = f.path
  name       : e.name = f.name
  tags       : e.tags = f.tags
  parameters : ∀ slot, Matched Parameter.Alike (e.parameters slot) (f.parameters slot)

/-- The specifications have endpoints that are alike in any order, and component schemas
that are alike, each under its own name, in any order. -/
structure Specification.Rearranged (s s' : Specification) : Prop where
  endpoints : Matched Endpoint.Alike s.endpoints s'.endpoints
  schemas   : Matched (fun a b => a.1 = b.1 ∧ Value.Alike a.2 b.2) s.components.schemas
    s'.components.schemas

theorem Parameter.Alike.parts {p q : Parameter} (h : p.Alike q) :
    p.name = q.name ∧ p.description = q.description ∧
      SameMembers (p.enumValues.getD []) (q.enumValues.getD []) ∧
      Matched Parameter.Alike p.properties q.properties := by
  cases h with
  | intro hName hDescription hValues hProperties =>
    exact ⟨hName, hDescription, hValues, hProperties⟩

-- ---------------------------------------------------------------------------
-- Going through parameters
-- ---------------------------------------------------------------------------

/-- The places are at the same address and hold parameters with the same name,
description and values. -/
structure SamePlace (x y : Address × Parameter) : Prop where
  address     : x.1 = y.1
  name        : x.2.name = y.2.name
  description : x.2.description = y.2.description
  values      : SameMembers (x.2.enumValues.getD []) (y.2.enumValues.getD [])

theorem SamePlace.hasEnum_eq {x y : Address × Parameter} (h : SamePlace x y) :
    x.2.hasEnum = y.2.hasEnum := by
  unfold Parameter.hasEnum
  rw [h.values.isEmpty_eq]

theorem sizeOf_lt_of_mem_properties {p q : Parameter} (h : q ∈ p.properties) :
    sizeOf q < sizeOf p := by
  cases p
  have hSize := List.sizeOf_lt_of_mem h
  simp only [Parameter.mk.sizeOf_spec]
  simp only at hSize
  omega

/-- Walks of parameters that are alike visit the same places. -/
theorem walk_alike {p q : Parameter} (h : Parameter.Alike p q) (a : Address) :
    Matched SamePlace (p.walk a) (q.walk a) := by
  obtain ⟨hName, hDescription, hValues, hProperties⟩ := h.parts
  rw [walk_eq_cons, walk_eq_cons]
  refine Matched.cons ⟨rfl, hName, hDescription, hValues⟩ ?_
  have hInside : Matched (fun x y => x.name = y.name ∧ ∀ a, Matched SamePlace (x.walk a) (y.walk a))
      p.properties q.properties := by
    refine hProperties.imp ?_
    intro x hx y hxy
    have hSmaller := sizeOf_lt_of_mem_properties hx
    exact ⟨hxy.parts.1, walk_alike hxy⟩
  refine hInside.flatMap ?_
  rintro x y ⟨hSame, hWalk⟩
  rw [hSame]
  exact hWalk _
termination_by sizeOf p

theorem Endpoint.Alike.key_eq {e f : Endpoint} (h : e.Alike f) : e.key = f.key := by
  rw [Endpoint.key, Endpoint.key, h.method, h.path]

/-- Endpoints that are alike have their parameters in the same places. -/
theorem allParameters_alike {e f : Endpoint} (h : e.Alike f) :
    Matched SamePlace e.allParameters f.allParameters := by
  have hSlots : Matched Eq Slot.all Slot.all := Matched.of_perm (fun _ _ => rfl) (List.Perm.refl _)
  refine hSlots.flatMap ?_
  rintro slot _ rfl
  refine (h.parameters slot).flatMap ?_
  intro p q hpq
  rw [h.key_eq, hpq.parts.1]
  exact walk_alike hpq _

end ClientGen.Api
