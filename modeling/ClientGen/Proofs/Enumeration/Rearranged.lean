import ClientGen.Proofs.Api.Rearranged
import ClientGen.Proofs.Enumeration.Occurrences
import ClientGen.Proofs.Enumeration.Signatures

/-!
# Occurrences in rearranged specifications

Collecting goes through the component schemas and the endpoints in the order of
the specification, and records for each list of values what was found there. A
rearranged specification yields the same records in another order: signatures
forget how the values are listed, and nothing else that is recorded depends on
anything outside its own parameter or property.

Main results:

* `endpointOccurrences_alike` / `schemaOccurrences_alike` — the records of one endpoint
  and of one schema.
* `occurrences_rearranged` — the records of the whole specification.
-/

namespace ClientGen.Enumeration

open ClientGen.Api ClientGen.Document ClientGen.Document.Value ClientGen.Schema

variable {tables : Tables}

/-- An occurrence does not depend on how the values are listed. -/
theorem occurrence_of_same_members {address : Address} {values values' : List Value} {name : Value}
    {context : String} {description : Option String} {o : Occurrence}
    (hSame : SameMembers values values')
    (h : occurrence tables address values name context description = .ok o) :
    occurrence tables address values' name context description = .ok o := by
  obtain ⟨s, text, hSignature, rfl, rfl⟩ := exists_of_occurrence_ok h
  unfold occurrence
  rw [signature_of_same_members hSame hSignature]
  rfl

-- ---------------------------------------------------------------------------
-- Endpoints
-- ---------------------------------------------------------------------------

theorem contextOf_alike {e f : Endpoint} (h : e.Alike f) : contextOf tables e = contextOf tables f := by
  unfold contextOf Endpoint.primaryTag?
  rw [h.tags, h.name]

/-- Endpoints that are alike have the same occurrences in some order. -/
theorem endpointOccurrences_alike {e f : Endpoint} (h : e.Alike f) {os : List Occurrence}
    (hos : endpointOccurrences tables e = .ok os) :
    ∃ os', endpointOccurrences tables f = .ok os' ∧ os.Perm os' := by
  have hListed := (allParameters_alike h).filter fun x y hxy => hxy.hasEnum_eq
  have hStep : ∀ (x y : Address × Parameter) (o : Occurrence), SamePlace x y →
      occurrence tables x.1 (x.2.enumValues.getD []) x.2.name (contextOf tables e)
        x.2.description = .ok o →
      ∃ o', occurrence tables y.1 (y.2.enumValues.getD []) y.2.name (contextOf tables f)
        y.2.description = .ok o' ∧ o = o' := by
    intro x y o hxy ho
    refine ⟨o, ?_, rfl⟩
    rw [← hxy.address, ← hxy.name, ← hxy.description, ← contextOf_alike h]
    exact occurrence_of_same_members hxy.values ho
  obtain ⟨os', hos', hMatched⟩ := hListed.mapM_ok hStep (endpointOccurrences_ok hos)
  exact ⟨os', hos', hMatched.perm_of_eq⟩

-- ---------------------------------------------------------------------------
-- Component schemas
-- ---------------------------------------------------------------------------

/-- Schemas that are alike have properties that are, under the same names and in the same
order. -/
theorem componentProperties_alike {v w : Value} (h : Alike v w) {properties : Entries}
    (hv : componentProperties v = .ok properties) :
    ∃ properties', componentProperties w = .ok properties' ∧
      List.Forall₂ EntryAlike properties properties' := by
  unfold componentProperties at hv ⊢
  obtain ⟨own, hOwn, hv⟩ := exists_of_bind_ok hv
  obtain ⟨members, hMembers, hv⟩ := exists_of_bind_ok hv
  have hOwnAlike := orElse_alike (h.field? (by decide : "properties" ≠ "enum")) emptyMap
  have hMembersAlike := orElse_alike (h.field? (by decide : "allOf" ≠ "enum")) (.list [])
  obtain ⟨own', hOwn', hEntries⟩ := hOwnAlike.contribution hOwn
  obtain ⟨members', hMembers', hItems⟩ := hMembersAlike.elements hMembers
  rw [hOwn', ok_bind, hMembers', ok_bind]
  have hMappings : List.Forall₂ Alike (members.filter isMapping) (members'.filter isMapping) :=
    List.rel_filter (fun x y hxy => by simp only [hxy.isMapping_eq]) hItems
  refine exists_foldlM_ok_of_forall₂ hMappings (overlay_alike List.Forall₂.nil hEntries) ?_ hv
  intro d d' x x' laid hd hx hStep
  obtain ⟨more, hMore, hStep⟩ := exists_of_bind_ok hStep
  cases hStep
  have hPart := orElse_alike (hx.field? (by decide : "properties" ≠ "enum")) emptyMap
  obtain ⟨more', hMore', hMoreAlike⟩ := hPart.contribution hMore
  rw [hMore', ok_bind]
  exact ⟨_, rfl, overlay_alike hd hMoreAlike⟩

/-- A property that is read alike under the same name has the same occurrence. -/
theorem propertyOccurrences_alike {name : String} {e f : Value × Value} (h : EntryAlike e f)
    {os : List Occurrence} (hos : propertyOccurrences tables name e = .ok os) :
    propertyOccurrences tables name f = .ok os := by
  unfold propertyOccurrences at hos ⊢
  obtain ⟨values, hValues, hos⟩ := exists_of_bind_ok hos
  obtain ⟨values', hValues', hSame⟩ := enumValues?_readAlike h.value hValues
  rw [hValues', ok_bind]
  cases hSame with
  | none => exact hos
  | some hMembers =>
    obtain ⟨o, ho, hos⟩ := exists_of_bind_ok hos
    cases hos
    rw [h.key, cleanDescription?_readAlike h.value] at ho
    simp only
    rw [occurrence_of_same_members hMembers ho]
    rfl

/-- Schemas that are alike have the same occurrences under the same name. -/
theorem schemaOccurrences_alike {a b : Value × Value} (hName : a.1 = b.1) (h : Alike a.2 b.2)
    {os : List Occurrence} (hos : schemaOccurrences tables a = .ok os) :
    schemaOccurrences tables b = .ok os := by
  rw [schemaOccurrences_eq] at hos ⊢
  obtain ⟨properties, hProperties, hos⟩ := exists_of_bind_ok hos
  obtain ⟨name, hText, hos⟩ := exists_of_bind_ok hos
  obtain ⟨each, hEach, hos⟩ := exists_of_bind_ok hos
  cases hos
  obtain ⟨properties', hProperties', hBoth⟩ := componentProperties_alike h hProperties
  have hStep : ∀ e f os, EntryAlike e f → propertyOccurrences tables name e = .ok os →
      ∃ os', propertyOccurrences tables name f = .ok os' ∧ os = os' := by
    intro e f os hAlike hos
    exact ⟨os, propertyOccurrences_alike hAlike hos, rfl⟩
  obtain ⟨each', hEach', hSame⟩ := exists_mapM_ok_of_forall₂ hBoth hStep hEach
  rw [List.forall₂_eq_eq_eq] at hSame
  rw [hProperties', ok_bind, ← hName, hText, ok_bind, hEach', hSame]
  rfl

-- ---------------------------------------------------------------------------
-- Specifications
-- ---------------------------------------------------------------------------

/-- **Occurrences do not depend on the order.** If the occurrences in a specification can
be collected, those in a rearranged one can, and they are the same in some order. -/
theorem occurrences_rearranged {s s' : Specification} (h : s.Rearranged s')
    {found : List Occurrence} (hFound : occurrences tables s = .ok found) :
    ∃ found', occurrences tables s' = .ok found' ∧ found.Perm found' := by
  obtain ⟨components, endpoints, hComponents, hEndpoints, rfl⟩ := exists_of_occurrences_ok hFound
  have hSchema : ∀ a b os, a.1 = b.1 ∧ Value.Alike a.2 b.2 → schemaOccurrences tables a = .ok os →
      ∃ os', schemaOccurrences tables b = .ok os' ∧ os.Perm os' := by
    rintro a b os ⟨hName, hAlike⟩ hos
    exact ⟨os, schemaOccurrences_alike hName hAlike hos, List.Perm.refl os⟩
  obtain ⟨components', hComponents', hSame⟩ := h.schemas.mapM_ok hSchema hComponents
  obtain ⟨endpoints', hEndpoints', hSame'⟩ :=
    h.endpoints.mapM_ok (fun _ _ _ hAlike hos => endpointOccurrences_alike hAlike hos) hEndpoints
  refine ⟨components'.flatten ++ endpoints'.flatten, ?_, hSame.flatten_perm.append hSame'.flatten_perm⟩
  unfold occurrences
  rw [hComponents', ok_bind, hEndpoints']
  rfl

end ClientGen.Enumeration
