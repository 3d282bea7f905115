import ClientGen.Proofs.Enumeration.Priority
import ClientGen.Proofs.Unit.Closure
import Mathlib.Data.List.Forall2
import Mathlib.Data.List.Permutation

/-!
# Enumerations in data classes

A field whose property lists texts has their enumeration for a type, if the registry has
one for them. The registry is filled from the component schemas, the data classes are
made of the same schemas, and still the two need not meet: what a member of a
composition takes over from its own members is a property of the data class, and nobody
has collected its values. This module shows that there is no other gap.

Main results:

* `enumOf?_of_texts` — the enumeration of listed texts is the one with their signature.
* `enums_of_component` — a field for listed texts has that enumeration, unless its
  property is buried in the composition.
* `plain_composedPet` — if it is, the field may be a plain one.
-/

namespace ClientGen.Unit

open ClientGen.Api ClientGen.Document ClientGen.Document.Value ClientGen.Enumeration ClientGen.Naming
  ClientGen.Schema

-- ---------------------------------------------------------------------------
-- The enumeration of listed texts
-- ---------------------------------------------------------------------------

/-- Listed texts have the enumeration with their signature. Names are never empty, so none is lost. -/
theorem enumOf?_of_texts {tables : Tables} {s : Specification} {registry : Registry}
    (hRegistry : (collect tables s).outcome = .ok registry) {schema : Value} {values : List Value}
    (hValues : enumValues? schema = .ok (some values)) (hTexts : values.all Value.isText = true)
    {enum? : Option String} (h : Dto.enumOf? registry schema = .ok enum?) :
    ∃ signed, signature values = .ok signed ∧ registry.bySignature.get? signed = enum? := by
  unfold Dto.enumOf? at h
  rw [hValues, ok_bind] at h
  dsimp only at h
  rw [if_pos hTexts] at h
  obtain ⟨found, hFound, h⟩ := exists_of_bind_ok h
  obtain ⟨signed, hSigned, hFound⟩ := exists_of_bind_ok hFound
  cases hFound
  cases h
  refine ⟨signed, hSigned, ?_⟩
  cases hName : registry.bySignature.get? signed with
  | none => rfl
  | some name =>
    obtain ⟨entry, hEntry, -, rfl⟩ := Dictionary.exists_of_get? hName
    have hSome : entry.2 ≠ "" := by
      intro hEmpty
      have hName := isIdentifier_of_named hRegistry _ (List.mem_map_of_mem hEntry)
      rw [hEmpty] at hName
      exact hName.nonempty rfl
    rw [nonEmpty?, Option.filter_some, if_pos (by simpa using hSome)]

-- ---------------------------------------------------------------------------
-- Fields
-- ---------------------------------------------------------------------------

/-- What a field makes of a property that lists texts: the data class imports the enumeration with
their signature and shows it, or the property is buried in the schema and was not collected. -/
def Listed (registry : Registry) (schema : Value) (d : Dto) (property : Value × Value) (field : Field) :
    Prop :=
  ∃ key, property.1 = .str key ∧ ∀ values, enumValues? property.2 = .ok (some values) →
    values.all Value.isText = true → ∃ signed, signature values = .ok signed ∧
      ((∃ definition ∈ registry.definitions.values, definition.signature = signed ∧
          ShowsEnum d.name key field definition.name ∧
          ⟨definition.name, Dto.enumAlias? definition.name d.name⟩ ∈ d.enums) ∨
        (registry.bySignature.get? signed = none ∧ Buried schema property.1 ∧
          ShowsPlain key property.2 field))

section Component

variable {tables : Tables} {s : Specification} {registry : Registry}

/-- A property that is not buried is collected with its values. -/
theorem exists_get?_of_not_buried (hRegistry : (collect tables s).outcome = .ok registry)
    {entry : Value × Value} (hEntry : entry ∈ s.components.schemas) (hKeyed : entry.2.wellKeyed = true)
    (hSets : ∀ items, entry.2.field? "allOf" = some (.set items) → ∀ v ∈ items, v.canBeKey = true)
    {properties : Entries} (hProperties : mergedProperties entry.2 = .ok properties) {key : String}
    {schema : Value} (hProperty : (.str key, schema) ∈ properties)
    (hNot : ¬ Buried entry.2 (.str key)) {values : List Value}
    (hValues : enumValues? schema = .ok (some values)) {signed : String}
    (hSigned : signature values = .ok signed) :
    ∃ name, registry.bySignature.get? signed = some name := by
  obtain ⟨found, hFound, hRun, -, -⟩ := exists_of_collect_ok hRegistry
  obtain ⟨collected, hCollected, hEach⟩ := exists_propertyOccurrence hFound hEntry
  have hDistinct := (wellKeyed_map.mp (mergedProperties_wellKeyed hKeyed hProperties)).1
  have hGet : Dictionary.get? collected (.str key) = some schema := by
    rw [← get?_mergedProperties (steady_str key) hKeyed hSets hProperties hCollected hNot]
    exact Dictionary.get?_of_mem hDistinct hProperty (beq_str.mpr rfl)
  obtain ⟨property, hMem, -, rfl⟩ := Dictionary.exists_of_get? hGet
  obtain ⟨o, ho, hSame⟩ := hEach property hMem values hValues
  refine (names_of_assignNames_ok hRun).exists_get?_iff.mpr ⟨o, ho, ?_⟩
  exact Except.ok.inj (hSame.symm.trans hSigned)

/--
**Component enumerations reach the fields.** For every specification with the registry collected
from it, and every component schema that a data class is made of: the class has one field for each
property of the schema merged with its members, at any depth, that is a mapping. Where the
property lists texts, the field has the enumeration with their signature for its type. Only if a
member of the composition takes the property over from its own members, and the signature is that
of no other enumeration, the field falls back on its plain type.
-/
theorem enums_of_component (hRegistry : (collect tables s).outcome = .ok registry)
    {entry : Value × Value} (hEntry : entry ∈ s.components.schemas) (hKeyed : entry.2.wellKeyed = true)
    (hSets : ∀ items, entry.2.field? "allOf" = some (.set items) → ∀ v ∈ items, v.canBeKey = true)
    {className : String} {d : Dto}
    (h : (Dto.ofSchema className registry entry.2).outcome = .ok d) :
    ∃ properties fields, mergedProperties entry.2 = .ok properties ∧
      d.fields = Dto.orderFields fields ∧
      List.Forall₂ (Listed registry entry.2 d) (properties.filter (·.2.isMapping)) fields := by
  obtain ⟨fields, enums, hFields, rfl, hOrder, -, hEnums, hShown⟩ := exists_of_ofSchema_ok h
  obtain ⟨properties, required, hProperties, hEach⟩ := exists_of_fieldsOf_ok hFields
  refine ⟨properties, fields, hProperties, hOrder, ?_⟩
  -- each field with its place among the properties and among the fields
  have hPlaced := ((List.forall₂_and_left _ _).mpr ⟨fun _ hp => hp, hEach⟩).flip
  replace hPlaced := ((List.forall₂_and_left _ _).mpr ⟨fun _ hf => hf, hPlaced⟩).flip
  refine hPlaced.imp ?_
  rintro ⟨name, schema⟩ field ⟨hField, hProperty, used, key, rfl, hFieldOf⟩
  refine ⟨key, rfl, fun values hValues hTexts => ?_⟩
  obtain ⟨signed, hSigned, hGet⟩ := enumOf?_of_texts hRegistry hValues hTexts hFieldOf.enum
  refine ⟨signed, hSigned, ?_⟩
  cases hEnum : field.enum? with
  | some name =>
    rw [hEnum] at hGet
    obtain ⟨definition, hDefinition, rfl, hSame⟩ := exists_definition_of_get? hRegistry hGet
    refine Or.inl ⟨definition, hDefinition, hSame, hFieldOf.showsEnum _ hEnum, ?_⟩
    rw [hEnums]
    exact List.mem_map.mpr ⟨_, (hShown _).mpr ⟨field, hField, hEnum⟩, rfl⟩
  | none =>
    rw [hEnum] at hGet
    refine Or.inr ⟨hGet, ?_, hFieldOf.showsPlain hEnum⟩
    by_contra hNot
    obtain ⟨name, hName⟩ := exists_get?_of_not_buried hRegistry hEntry hKeyed hSets hProperties
      (List.mem_of_mem_filter hProperty) hNot hValues hSigned
    rw [hGet] at hName
    cases hName

end Component

-- ---------------------------------------------------------------------------
-- A composition of two members
-- ---------------------------------------------------------------------------

/-- A text property with one value. -/
def choiceOf (text : String) : Value :=
  .map [(.str "type", .str "string"), (.str "enum", .list [.str text])]

/-- An object with one property. -/
def objectWith (name : String) (schema : Value) : Value :=
  .map [(.str "properties", .map [(.str name, schema)])]

/-- A composition that states nothing itself. -/
def composedOf (members : List Value) : Value := .map [(.str "allOf", .list members)]

/-- The first member states its property, the second takes it over from a member of its own. -/
def composedPet : Value :=
  composedOf [objectWith "mood" (choiceOf "calm"), composedOf [objectWith "coat" (choiceOf "short")]]

def pets : Specification where
  name := .str "Pets"
  description := .null
  components := { schemas := [(.str "Pet", composedPet)] }
  endpoints := []

theorem merge_objectWith (name : String) (schema : Value) :
    merge (objectWith name schema) = .ok (objectWith name schema) :=
  merge_of_plain rfl (by simp [objectWith, field?, Dictionary.get?])

theorem ownParts_objectWith (name : String) (schema : Value) :
    ownParts (objectWith name schema) = .ok ⟨[(.str name, schema)], []⟩ := by
  rw [ownParts]
  simp [objectWith, field?, Dictionary.get?, contribution, elements, Dictionary.ofEntries,
    Dictionary.overlay, Dictionary.put]

theorem merge_composedOf (members : List Value) :
    merge (composedOf members) = (mergeMembers ⟨[], []⟩ members).map Merged.toSchema := by
  have hMembers : (composedOf members).field? "allOf" = some (.list members) := by
    simp [composedOf, field?, Dictionary.get?]
  have hOwn : ownParts (composedOf members) = .ok ⟨[], []⟩ := by
    rw [ownParts]
    simp [composedOf, field?, Dictionary.get?, contribution, elements, emptyMap, Dictionary.ofEntries,
      Dictionary.overlay]
  rw [merge_of_members hMembers, hOwn, ok_bind]
  rfl

theorem merge_composedPet :
    merge composedPet = .ok (Merged.toSchema
      ⟨[(.str "mood", choiceOf "calm"), (.str "coat", choiceOf "short")], []⟩) := by
  have hCoat : merge (composedOf [objectWith "coat" (choiceOf "short")]) =
      .ok (Merged.toSchema ⟨[(.str "coat", choiceOf "short")], []⟩) := by
    rw [merge_composedOf, mergeMembers_cons rfl (merge_objectWith _ _) (ownParts_objectWith _ _),
      mergeMembers]
    rfl
  have hDistinct : Dictionary.Distinct [(Value.str "coat", choiceOf "short")] :=
    List.pairwise_singleton _ _
  rw [composedPet, merge_composedOf, mergeMembers_cons rfl (merge_objectWith _ _) (ownParts_objectWith _ _),
    mergeMembers_cons rfl hCoat (ownParts_toSchema hDistinct), mergeMembers]
  simp [Merged.add, Dictionary.overlay, Dictionary.put, Except.map]

theorem enumValues?_choiceOf (text : String) :
    enumValues? (choiceOf text) = .ok (some [.str text]) := by
  rw [enumValues?]
  simp [choiceOf, field?, Dictionary.get?, literals?]

theorem kindOf_choiceOf (text : String) : (kindOf (choiceOf text)).outcome = .ok .text := by
  rw [kindOf]
  simp [choiceOf, field?, Dictionary.get?, isMapping, isTruthy, isOpen, openRef?, refKey]
  rfl

/-- Only the first property occurs, and proposes a name of its own. -/
theorem exists_occurrences_pets :
    ∃ o, occurrences {} pets = .ok [o] ∧ o.signature = "[\"calm\"]" ∧ o.proposals = [(3, "PetMood")] := by
  have hCollected : componentProperties composedPet = .ok [(.str "mood", choiceOf "calm")] := by cbv
  have hSignature : signature [.str "calm"] = .ok "[\"calm\"]" := by cbv
  have hProposals : proposals {} "mood" (pascal "Pet") = [(3, "PetMood")] := by decide +kernel
  have hProperty : ∃ o, propertyOccurrences {} "Pet" (.str "mood", choiceOf "calm") = .ok [o] ∧
      o.signature = "[\"calm\"]" ∧ o.proposals = [(3, "PetMood")] := by
    unfold propertyOccurrences occurrence
    rw [enumValues?_choiceOf, ok_bind]
    dsimp only
    rw [hSignature]
    exact ⟨_, rfl, rfl, hProposals⟩
  obtain ⟨o, hOccurrence, hOwn⟩ := hProperty
  refine ⟨o, ?_, hOwn⟩
  have hSchema : schemaOccurrences {} (.str "Pet", composedPet) = .ok [o] := by
    simp only [schemaOccurrences_eq, hCollected, asText, ok_bind, List.mapM_cons, List.mapM_nil, hOccurrence]
    rfl
  simp only [occurrences, pets, List.mapM_cons, List.mapM_nil, hSchema, ok_bind]
  rfl

/-- The fields for the two properties. -/
def petFields : List Field :=
  let mood := Dto.attributeName Dto.bodyNames "mood"
  [{  name := mood
      typeText := annotation true (shownAs "Pet" "PetMood")
      optional := true
      reader := Dto.readerText "mood" (some (shownAs "Pet" "PetMood"))
      enum? := some "PetMood" },
   {  name := Dto.attributeName (mood :: Dto.bodyNames) "coat"
      typeText := annotation true Kind.text.typeText
      optional := true
      reader := Dto.readerText "coat" none
      enum? := none }]

theorem fieldsOf_composedPet {registry : Registry}
    (hCalm : Dto.enumOf? registry (choiceOf "calm") = .ok (some "PetMood"))
    (hShort : Dto.enumOf? registry (choiceOf "short") = .ok none) :
    (Dto.fieldsOf "Pet" registry composedPet).outcome = .ok petFields := by
  have hRequired : (orElse (some (.list [])) (.list [])).keysOf = .ok [] := rfl
  unfold Dto.fieldsOf
  simp only [Journal.outcome_bind, Journal.outcome_lift, merge_composedPet, ok_bind, member_toSchema,
    field?_required_toSchema, field?_properties_toSchema, hRequired, orElse_map, entries,
    Journal.outcome_foldlM, List.foldlM_cons]
  rw [addField_of_ok rfl (fieldOf_of_absent hCalm (kindOf_choiceOf "calm") rfl), ok_bind,
    addField_of_ok rfl (fieldOf_of_absent hShort (kindOf_choiceOf "short") rfl), ok_bind]
  rfl

/-- Both properties have fields. One of them shows its enumeration. -/
theorem exists_dto_composedPet :
    ∃ registry d, (collect {} pets).outcome = .ok registry ∧
      (Dto.ofSchema "Pet" registry composedPet).outcome = .ok d ∧
      registry.definitions.values.map (fun d => (d.name, d.signature)) = [("PetMood", "[\"calm\"]")] ∧
      d.fields.map (fun f => (f.name, f.typeText)) =
        [("mood", "PetMood | None"), ("coat", "str | None")] := by
  obtain ⟨o, hFound, hSignature, hProposals⟩ := exists_occurrences_pets
  obtain ⟨registry, hCollect⟩ := exists_collect_ok hFound
  obtain ⟨found, hFound', hRun, hDefinitions, -⟩ := exists_of_collect_ok hCollect
  obtain rfl : [o] = found := Except.ok.inj (hFound.symm.trans hFound')
  have hNames : registry.bySignature = [("[\"calm\"]", "PetMood")] := by
    rw [assignNames_singleton hProposals rfl (List.pairwise_singleton _ _), hSignature] at hRun
    exact (Except.ok.inj hRun).symm
  have hEnum : ∀ text signed, signature [.str text] = .ok signed →
      Dto.enumOf? registry (choiceOf text) = .ok (nonEmpty? (registry.bySignature.get? signed)) := by
    intro text signed hSigned
    unfold Dto.enumOf? Registry.nameOf?
    rw [enumValues?_choiceOf, ok_bind]
    dsimp only
    rw [hSigned]
    rfl
  have hCalm : Dto.enumOf? registry (choiceOf "calm") = .ok (some "PetMood") := by
    rw [hEnum "calm" "[\"calm\"]" (by cbv), hNames]
    rfl
  have hShort : Dto.enumOf? registry (choiceOf "short") = .ok none := by
    rw [hEnum "short" "[\"short\"]" (by cbv), hNames]
    rfl
  have hFields := fieldsOf_composedPet hCalm hShort
  have hTexts : petFields.map (fun f => (f.name, f.typeText)) =
      [("mood", "PetMood | None"), ("coat", "str | None")] := by decide +kernel
  have hDto : ∃ d, (Dto.ofSchema "Pet" registry composedPet).outcome = .ok d ∧
      d.fields = Dto.orderFields petFields := by
    unfold Dto.ofSchema
    rw [Journal.outcome_bind, hFields, ok_bind]
    exact ⟨_, rfl, rfl⟩
  obtain ⟨d, hMade, hOrder⟩ := hDto
  refine ⟨registry, d, hCollect, hMade, ?_, ?_⟩
  · rw [hDefinitions, hNames, definitionEntries, List.mergeSort_singleton]
    rfl
  · rw [hOrder, ← hTexts]
    rfl

theorem mergedProperties_composedPet : mergedProperties composedPet =
    .ok [(.str "mood", choiceOf "calm"), (.str "coat", choiceOf "short")] := by
  unfold mergedProperties
  rw [merge_composedPet, ok_bind, member_toSchema, field?_properties_toSchema, ok_bind, orElse_map, entries]

/-- The fields of the composition show the enumerations that are there. -/
theorem enums_of_composedPet :
    (.str "Pet", composedPet) ∈ pets.components.schemas ∧ composedPet.wellKeyed = true ∧
      (∀ items, composedPet.field? "allOf" = some (.set items) → ∀ v ∈ items, v.canBeKey = true) ∧
      ∃ registry d, (collect {} pets).outcome = .ok registry ∧
        (Dto.ofSchema "Pet" registry composedPet).outcome = .ok d ∧
        ∃ properties fields, mergedProperties composedPet = .ok properties ∧
          d.fields = Dto.orderFields fields ∧
          List.Forall₂ (Listed registry composedPet d) (properties.filter (·.2.isMapping)) fields := by
  have hMem : (.str "Pet", composedPet) ∈ pets.components.schemas := List.mem_singleton_self _
  have hKeyed : composedPet.wellKeyed = true := by decide +kernel
  have hSets : ∀ items, composedPet.field? "allOf" = some (.set items) → ∀ v ∈ items, v.canBeKey = true := by
    simp [composedPet, composedOf, field?, Dictionary.get?]
  obtain ⟨registry, d, hCollect, hMade, -⟩ := exists_dto_composedPet
  exact ⟨hMem, hKeyed, hSets, registry, d, hCollect, hMade,
    enums_of_component hCollect hMem hKeyed hSets hMade⟩

/-- **A buried property is plain.** The second property lists a text, and yet no enumeration has its
signature and its field is a plain one. -/
theorem plain_composedPet :
    ∃ registry d, (collect {} pets).outcome = .ok registry ∧
      (Dto.ofSchema "Pet" registry composedPet).outcome = .ok d ∧
      mergedProperties composedPet =
        .ok [(.str "mood", choiceOf "calm"), (.str "coat", choiceOf "short")] ∧
      enumValues? (choiceOf "short") = .ok (some [.str "short"]) ∧
      signature [.str "short"] = .ok "[\"short\"]" ∧
      (∀ definition ∈ registry.definitions.values, definition.signature ≠ "[\"short\"]") ∧
      d.fields.map (fun f => (f.name, f.typeText)) =
        [("mood", "PetMood | None"), ("coat", "str | None")] := by
  obtain ⟨registry, d, hCollect, hMade, hDefinitions, hFields⟩ := exists_dto_composedPet
  refine ⟨registry, d, hCollect, hMade, mergedProperties_composedPet, enumValues?_choiceOf _, by cbv, ?_,
    hFields⟩
  intro definition hDefinition hSame
  have hOne := List.mem_map_of_mem (f := fun d => (d.name, d.signature)) hDefinition
  rw [hDefinitions, hSame, List.mem_singleton] at hOne
  exact absurd (Prod.mk.inj hOne).2 (by decide)

end ClientGen.Unit
