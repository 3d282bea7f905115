import ClientGen.Enumeration.Registry
import ClientGen.Proofs.Api.Addresses

/-!
# Occurrences of enumerations

What is collected from a specification: an occurrence for every property of a
component schema and for every parameter that lists its values. Each is recorded
under an address of its own, so the registry can tell all of them apart.

Main results:

* `exists_occurrence` — a parameter that lists its values is collected under its
  address, with the signature of these values.
* `exists_propertyOccurrence` — so is a property of a component schema.
* `occurrences_unique` — no two occurrences of a normal specification have the
  same address.
* `exists_proposals` — what an occurrence proposes.
-/

namespace ClientGen.Enumeration

open ClientGen.Api ClientGen.Document ClientGen.Document.Value ClientGen.Schema

/-- What an occurrence is made of. -/
theorem exists_of_occurrence_ok {tables : Tables} {address : Address} {values : List Value}
    {name : Value} {context : String} {description : Option String} {o : Occurrence}
    (h : occurrence tables address values name context description = .ok o) :
    ∃ s text, signature values = .ok s ∧ name = .str text ∧
      o = ⟨address, s, proposals tables text context, description.filter (· != "")⟩ := by
  unfold occurrence at h
  obtain ⟨s, hSignature, h⟩ := exists_of_bind_ok h
  obtain ⟨text, hText, h⟩ := exists_of_bind_ok h
  exact ⟨s, text, hSignature, asText_ok hText, (Except.ok.inj h).symm⟩

-- ---------------------------------------------------------------------------
-- Component schemas
-- ---------------------------------------------------------------------------

/-- However the properties of a component schema come together, no two have the same name. -/
theorem componentProperties_distinct {schema : Value} {properties : Entries}
    (h : componentProperties schema = .ok properties) : Dictionary.Distinct properties := by
  unfold componentProperties at h
  obtain ⟨own, -, h⟩ := exists_of_bind_ok h
  obtain ⟨members, -, h⟩ := exists_of_bind_ok h
  refine foldlM_ok_induction Dictionary.Distinct (Dictionary.ofEntries_distinct own) ?_ h
  intro so_far member laid _ hDistinct hStep
  obtain ⟨more, -, hStep⟩ := exists_of_bind_ok hStep
  cases hStep
  exact Dictionary.overlay_distinct more hDistinct

/-- The occurrence in a property of the component schema with the given name, if it lists
its values. -/
def propertyOccurrences (tables : Tables) (name : String) (property : Value × Value) :
    Except Fault (List Occurrence) := do
  match ← enumValues? property.2 with
  | some values =>
    let address : Address := ⟨schemaPointer ++ name, "properties", [property.1]⟩
    let description := cleanDescription? (property.2.field? "description")
    return [← occurrence tables address values property.1 (Naming.pascal name) description]
  | none => return []

/-- The occurrences in a component schema are those in its properties. -/
theorem schemaOccurrences_eq (entry : Value × Value) (tables : Tables) :
    schemaOccurrences tables entry = (do
      let properties ← componentProperties entry.2
      let name ← entry.1.asText
      let found ← properties.mapM (propertyOccurrences tables name)
      return found.flatten) := rfl

/-- A property has at most one occurrence, and its address ends in the name of the property. -/
theorem propertyOccurrences_ok {tables : Tables} {name : String} {property : Value × Value}
    {os : List Occurrence} (h : propertyOccurrences tables name property = .ok os) :
    os = [] ∨ ∃ o text, os = [o] ∧ property.1 = .str text ∧
      o.address = ⟨schemaPointer ++ name, "properties", [.str text]⟩ := by
  unfold propertyOccurrences at h
  obtain ⟨values?, -, h⟩ := exists_of_bind_ok h
  cases values? with
  | none =>
    cases h
    exact Or.inl rfl
  | some values =>
    obtain ⟨o, ho, h⟩ := exists_of_bind_ok h
    cases h
    obtain ⟨s, text, -, hText, rfl⟩ := exists_of_occurrence_ok ho
    rw [hText]
    exact Or.inr ⟨_, text, rfl, rfl, rfl⟩

/-- The occurrences in a component schema have addresses of its own, and no two the same. -/
theorem schemaOccurrences_unique {tables : Tables} {entry : Value × Value} {found : List Occurrence}
    (h : schemaOccurrences tables entry = .ok found) :
    found.Pairwise (fun o o' => o.address ≠ o'.address) ∧ ∃ name, entry.1 = .str name ∧
      ∀ o ∈ found, o.address.Textual ∧ o.address.owner = schemaPointer ++ name ∧
        o.address.slot = "properties" := by
  rw [schemaOccurrences_eq] at h
  obtain ⟨properties, hProperties, h⟩ := exists_of_bind_ok h
  obtain ⟨name, hName, h⟩ := exists_of_bind_ok h
  obtain ⟨each, hEach, h⟩ := exists_of_bind_ok h
  cases h
  constructor
  · rw [List.pairwise_flatten]
    constructor
    · intro os hMem
      obtain ⟨property, -, hos⟩ := exists_of_mem_mapM hEach os hMem
      rcases propertyOccurrences_ok hos with rfl | ⟨o, text, rfl, -⟩
      · exact List.Pairwise.nil
      · exact List.pairwise_singleton _ _
    · refine pairwise_of_mapM_ok hEach (componentProperties_distinct hProperties) ?_
      intro p _ q _ os os' hApart hos hos' o ho o' ho' hSame
      rcases propertyOccurrences_ok hos with rfl | ⟨_, text, rfl, hText, hAddress⟩
      · cases ho
      · rcases propertyOccurrences_ok hos' with rfl | ⟨_, text', rfl, hText', hAddress'⟩
        · cases ho'
        · rw [List.mem_singleton.mp ho, List.mem_singleton.mp ho', hAddress, hAddress'] at hSame
          injection hSame with _ _ hNames
          rw [hText, hText', List.singleton_inj.mp hNames, beq_str.mpr rfl] at hApart
          cases hApart
  · refine ⟨name, asText_ok hName, ?_⟩
    intro o ho
    obtain ⟨os, hos, ho⟩ := List.mem_flatten.mp ho
    obtain ⟨property, -, hos⟩ := exists_of_mem_mapM hEach os hos
    rcases propertyOccurrences_ok hos with rfl | ⟨_, text, rfl, -, hAddress⟩
    · cases ho
    · rw [List.mem_singleton.mp ho, hAddress]
      refine ⟨?_, rfl, rfl⟩
      intro n hn
      rw [List.mem_singleton.mp hn]
      rfl

-- ---------------------------------------------------------------------------
-- Endpoints
-- ---------------------------------------------------------------------------

/-- The occurrences in an endpoint are those of its parameters that list their values. -/
theorem endpointOccurrences_ok {tables : Tables} {e : Endpoint} {found : List Occurrence}
    (h : endpointOccurrences tables e = .ok found) :
    (e.allParameters.filter fun place => place.2.hasEnum).mapM (fun place =>
      occurrence tables place.1 (place.2.enumValues.getD []) place.2.name (contextOf tables e)
        place.2.description) = .ok found := h

theorem endpointOccurrences_unique {tables : Tables} {e : Endpoint} {found : List Occurrence}
    (hApart : ∀ slot, AllApart (e.parameters slot)) (hText : e.Textual)
    (h : endpointOccurrences tables e = .ok found) :
    found.Pairwise (fun o o' => o.address ≠ o'.address) ∧
      ∀ o ∈ found, o.address.Textual ∧ o.address.owner = e.key ∧
        ∃ slot : Slot, o.address.slot = slot.name := by
  have hFound := endpointOccurrences_ok h
  obtain ⟨hUnique, hAddresses⟩ := allParameters_unique hApart hText
  constructor
  · refine pairwise_of_mapM_ok hFound (hUnique.sublist List.filter_sublist) ?_
    intro x _ y _ o o' hDiffer ho ho'
    obtain ⟨_, _, -, -, rfl⟩ := exists_of_occurrence_ok ho
    obtain ⟨_, _, -, -, rfl⟩ := exists_of_occurrence_ok ho'
    exact hDiffer
  · intro o ho
    obtain ⟨x, hx, ho⟩ := exists_of_mem_mapM hFound o ho
    obtain ⟨_, _, -, -, rfl⟩ := exists_of_occurrence_ok ho
    exact hAddresses x (List.mem_of_mem_filter hx)

-- ---------------------------------------------------------------------------
-- Specifications
-- ---------------------------------------------------------------------------

/-- The occurrences in a specification are those in its component schemas and those
in its endpoints. -/
theorem exists_of_occurrences_ok {tables : Tables} {s : Specification} {found : List Occurrence}
    (h : occurrences tables s = .ok found) :
    ∃ components endpoints, s.components.schemas.mapM (schemaOccurrences tables) = .ok components ∧
      s.endpoints.mapM (endpointOccurrences tables) = .ok endpoints ∧
      found = components.flatten ++ endpoints.flatten := by
  unfold occurrences at h
  obtain ⟨components, hComponents, h⟩ := exists_of_bind_ok h
  obtain ⟨endpoints, hEndpoints, h⟩ := exists_of_bind_ok h
  exact ⟨components, endpoints, hComponents, hEndpoints, (Except.ok.inj h).symm⟩

/-- **Every enumeration is collected.** A parameter that lists its values, in whatever
slot and at whatever depth, is collected under its address with their signature. -/
theorem exists_occurrence {tables : Tables} {s : Specification} {found : List Occurrence}
    (h : occurrences tables s = .ok found) {e : Endpoint} (he : e ∈ s.endpoints)
    {place : Address × Parameter} (hPlace : place ∈ e.allParameters) (hEnum : place.2.hasEnum = true) :
    ∃ o ∈ found, o.address = place.1 ∧
      signature (place.2.enumValues.getD []) = .ok o.signature := by
  obtain ⟨components, endpoints, -, hEndpoints, rfl⟩ := exists_of_occurrences_ok h
  obtain ⟨os, hos, hOccurrences⟩ := exists_of_mapM_ok hEndpoints e he
  have hListed : place ∈ e.allParameters.filter fun place => place.2.hasEnum :=
    List.mem_filter.mpr ⟨hPlace, hEnum⟩
  obtain ⟨o, ho, hOccurrence⟩ :=
    exists_of_mapM_ok (endpointOccurrences_ok hOccurrences) place hListed
  obtain ⟨signed, _, hSignature, -, rfl⟩ := exists_of_occurrence_ok hOccurrence
  have hFound := List.mem_append_right components.flatten (List.mem_flatten.mpr ⟨os, hos, ho⟩)
  exact ⟨_, hFound, rfl, hSignature⟩

/-- A property that is collected from a component schema occurs with the signature of its values, if
it lists them. -/
theorem exists_propertyOccurrence {tables : Tables} {s : Specification} {found : List Occurrence}
    (h : occurrences tables s = .ok found) {entry : Value × Value}
    (hEntry : entry ∈ s.components.schemas) :
    ∃ properties, componentProperties entry.2 = .ok properties ∧
      ∀ property ∈ properties, ∀ values, enumValues? property.2 = .ok (some values) →
        ∃ o ∈ found, signature values = .ok o.signature := by
  obtain ⟨components, endpoints, hComponents, -, rfl⟩ := exists_of_occurrences_ok h
  obtain ⟨os, hos, hSchema⟩ := exists_of_mapM_ok hComponents entry hEntry
  rw [schemaOccurrences_eq] at hSchema
  obtain ⟨properties, hProperties, hSchema⟩ := exists_of_bind_ok hSchema
  obtain ⟨name, -, hSchema⟩ := exists_of_bind_ok hSchema
  obtain ⟨each, hEach, hSchema⟩ := exists_of_bind_ok hSchema
  cases hSchema
  refine ⟨properties, hProperties, ?_⟩
  intro property hProperty values hValues
  obtain ⟨made, hMade, hStep⟩ := exists_of_mapM_ok hEach property hProperty
  unfold propertyOccurrences at hStep
  rw [hValues, ok_bind] at hStep
  obtain ⟨o, ho, hStep⟩ := exists_of_bind_ok hStep
  cases hStep
  obtain ⟨signed, _, hSignature, -, rfl⟩ := exists_of_occurrence_ok ho
  have hOwn := List.mem_flatten.mpr ⟨_, hMade, List.mem_singleton_self _⟩
  exact ⟨_, List.mem_append_left _ (List.mem_flatten.mpr ⟨_, hos, hOwn⟩), hSignature⟩

/-- Component schemas have different names, and so do the owners of what occurs in them. -/
theorem componentOccurrences_unique {tables : Tables} {schemas : Entries}
    {components : List (List Occurrence)} (hApart : TextsApart schemas.keys)
    (h : schemas.mapM (schemaOccurrences tables) = .ok components) :
    components.flatten.Pairwise (fun o o' => o.address ≠ o'.address) ∧
      ∀ o ∈ components.flatten, o.address.Textual ∧ o.address.slot = "properties" := by
  constructor
  · rw [List.pairwise_flatten]
    constructor
    · intro os hos
      obtain ⟨entry, -, hos⟩ := exists_of_mem_mapM h os hos
      exact (schemaOccurrences_unique hos).1
    · refine pairwise_of_mapM_ok h (List.pairwise_map.mp hApart) ?_
      intro a _ b _ os os' hApart hos hos' o ho o' ho' hSame
      obtain ⟨-, name, hName, hOwner⟩ := schemaOccurrences_unique hos
      obtain ⟨-, name', hName', hOwner'⟩ := schemaOccurrences_unique hos'
      have hPointers : schemaPointer ++ name = schemaPointer ++ name' := by
        rw [← (hOwner o ho).2.1, hSame, (hOwner' o' ho').2.1]
      rw [String.append_right_inj] at hPointers
      rw [← hPointers] at hName'
      exact hApart name hName hName'
  · intro o ho
    obtain ⟨os, hos, ho⟩ := List.mem_flatten.mp ho
    obtain ⟨entry, -, hos⟩ := exists_of_mem_mapM h os hos
    obtain ⟨-, name, -, hAddress⟩ := schemaOccurrences_unique hos
    exact ⟨(hAddress o ho).1, (hAddress o ho).2.2⟩

/-- Endpoints have different keys, and these own what occurs in them. -/
theorem endpointsOccurrences_unique {tables : Tables} {es : List Endpoint}
    {endpoints : List (List Occurrence)} (hKeys : (es.map Endpoint.key).Nodup)
    (hApart : ∀ e ∈ es, ∀ slot, AllApart (e.parameters slot)) (hText : ∀ e ∈ es, e.Textual)
    (h : es.mapM (endpointOccurrences tables) = .ok endpoints) :
    endpoints.flatten.Pairwise (fun o o' => o.address ≠ o'.address) ∧
      ∀ o ∈ endpoints.flatten, o.address.Textual ∧ ∃ slot : Slot, o.address.slot = slot.name := by
  have hEach : ∀ e ∈ es, ∀ os, endpointOccurrences tables e = .ok os → _ :=
    fun e he os hos => endpointOccurrences_unique (hApart e he) (hText e he) hos
  constructor
  · rw [List.pairwise_flatten]
    constructor
    · intro os hos
      obtain ⟨e, he, hos⟩ := exists_of_mem_mapM h os hos
      exact (hEach e he os hos).1
    · rw [List.nodup_iff_pairwise_ne, List.pairwise_map] at hKeys
      refine pairwise_of_mapM_ok h hKeys ?_
      intro e he f hf os os' hDiffer hos hos' o ho o' ho' hSame
      have hOwner := ((hEach e he os hos).2 o ho).2.1
      have hOwner' := ((hEach f hf os' hos').2 o' ho').2.1
      rw [hSame] at hOwner
      exact hDiffer (hOwner.symm.trans hOwner')
  · intro o ho
    obtain ⟨os, hos, ho⟩ := List.mem_flatten.mp ho
    obtain ⟨e, he, hos⟩ := exists_of_mem_mapM h os hos
    exact ⟨((hEach e he os hos).2 o ho).1, ((hEach e he os hos).2 o ho).2.2⟩

/-- **Occurrences have addresses of their own.** -/
theorem occurrences_unique {tables : Tables} {s : Specification} {found : List Occurrence}
    (hNormal : s.Normal) (hText : ∀ e ∈ s.endpoints, e.Textual)
    (h : occurrences tables s = .ok found) :
    found.Pairwise (fun o o' => o.address ≠ o'.address) ∧ ∀ o ∈ found, o.address.Textual := by
  obtain ⟨components, endpoints, hComponents, hEndpoints, rfl⟩ := exists_of_occurrences_ok h
  obtain ⟨hFirst, hProperties⟩ := componentOccurrences_unique hNormal.components hComponents
  obtain ⟨hSecond, hSlots⟩ :=
    endpointsOccurrences_unique hNormal.keys hNormal.parameters hText hEndpoints
  constructor
  · rw [List.pairwise_append]
    refine ⟨hFirst, hSecond, ?_⟩
    -- the slot of a component is none of an endpoint
    intro o ho o' ho' hSame
    obtain ⟨slot, hSlot⟩ := (hSlots o' ho').2
    rw [← hSame, (hProperties o ho).2] at hSlot
    cases slot <;> exact absurd hSlot (by decide)
  · intro o ho
    rcases List.mem_append.mp ho with ho | ho
    · exact (hProperties o ho).1
    · exact (hSlots o ho).1

-- ---------------------------------------------------------------------------
-- Proposals
-- ---------------------------------------------------------------------------

/-- A context is written in pascal case. -/
theorem exists_contextOf (tables : Tables) (e : Endpoint) :
    ∃ text, contextOf tables e = Naming.pascal text := by
  unfold contextOf
  split
  · exact ⟨_, rfl⟩
  · exact ⟨_, rfl⟩

theorem propertyOccurrences_proposals {tables : Tables} {name : String} {property : Value × Value}
    {os : List Occurrence} (h : propertyOccurrences tables name property = .ok os) :
    ∀ o ∈ os, ∃ parameter, o.proposals = proposals tables parameter (Naming.pascal name) := by
  unfold propertyOccurrences at h
  obtain ⟨values?, -, h⟩ := exists_of_bind_ok h
  cases values? with
  | none =>
    cases h
    simp
  | some values =>
    obtain ⟨o, ho, h⟩ := exists_of_bind_ok h
    cases h
    obtain ⟨_, text, -, -, rfl⟩ := exists_of_occurrence_ok ho
    intro o' ho'
    rw [List.mem_singleton.mp ho']
    exact ⟨text, rfl⟩

/-- **What is proposed.** Every occurrence proposes the names of a parameter in a context. -/
theorem exists_proposals {tables : Tables} {s : Specification} {found : List Occurrence}
    (h : occurrences tables s = .ok found) :
    ∀ o ∈ found, ∃ parameter text, o.proposals = proposals tables parameter (Naming.pascal text) := by
  obtain ⟨components, endpoints, hComponents, hEndpoints, rfl⟩ := exists_of_occurrences_ok h
  intro o ho
  rcases List.mem_append.mp ho with ho | ho
  · obtain ⟨os, hos, ho⟩ := List.mem_flatten.mp ho
    obtain ⟨entry, -, hSchema⟩ := exists_of_mem_mapM hComponents os hos
    rw [schemaOccurrences_eq] at hSchema
    obtain ⟨properties, -, hSchema⟩ := exists_of_bind_ok hSchema
    obtain ⟨name, -, hSchema⟩ := exists_of_bind_ok hSchema
    obtain ⟨each, hEach, hSchema⟩ := exists_of_bind_ok hSchema
    cases hSchema
    obtain ⟨found, hFound, ho⟩ := List.mem_flatten.mp ho
    obtain ⟨property, -, hProperty⟩ := exists_of_mem_mapM hEach found hFound
    obtain ⟨parameter, hProposals⟩ := propertyOccurrences_proposals hProperty o ho
    exact ⟨parameter, name, hProposals⟩
  · obtain ⟨os, hos, ho⟩ := List.mem_flatten.mp ho
    obtain ⟨e, -, hEndpoint⟩ := exists_of_mem_mapM hEndpoints os hos
    obtain ⟨place, -, hPlace⟩ := exists_of_mem_mapM (endpointOccurrences_ok hEndpoint) o ho
    obtain ⟨_, parameter, -, -, rfl⟩ := exists_of_occurrence_ok hPlace
    obtain ⟨text, hContext⟩ := exists_contextOf tables e
    exact ⟨parameter, text, by rw [hContext]⟩

theorem proposals_ne_nil (tables : Tables) (parameter context : String) :
    proposals tables parameter context ≠ [] := by
  unfold proposals
  simp

end ClientGen.Enumeration
