import ClientGen.Proofs.Schema.Composition
import ClientGen.Proofs.Sorting
import ClientGen.Unit.Dto

/-!
# The fields of a data class

A data class has one field for each property of its merged schema that is a mapping.
Its fields are made one after another, since the attribute of a property depends on the
names that the properties before it use; everything else in a field comes from the
property alone.

Main results:

* `isFieldOf_of_ok` / `fieldOf_of_absent` — what the field for a property is made of.
* `outcome_fieldsOf` — the fields come from one run through the merged properties.
* `exists_of_fieldsOf_ok` — they are those for the properties, one by one.
* `exists_of_ofSchema_ok` — the data class holds them and imports their enumerations.
-/

namespace ClientGen.Unit

open ClientGen.Document ClientGen.Enumeration ClientGen.Schema

/-- The name under which a data class knows an enumeration: its own, unless that is the name of
the class. -/
def shownAs (className enum : String) : String := (Dto.enumAlias? enum className).getD enum

/-- The type of a field that may have to be absent. -/
def annotation (optional : Bool) (type : String) : String := if optional then type ++ " | None" else type

/-- The field has an enumeration for its type and reads the property through it. -/
structure ShowsEnum (className key : String) (field : Field) (name : String) : Prop where
  enum : field.enum? = some name
  typeText : field.typeText = annotation field.optional (shownAs className name)
  reader : field.reader = Dto.readerText key (some (shownAs className name))

/-- The field has the plain type of its property and reads it as it is. -/
structure ShowsPlain (key : String) (schema : Value) (field : Field) : Prop where
  enum : field.enum? = none
  typeText : ∃ kind, (kindOf schema).outcome = .ok kind ∧
    field.typeText = annotation field.optional kind.typeText
  reader : field.reader = Dto.readerText key none

/-- The field is the one for a property, when the names in `used` are taken. -/
structure IsFieldOf (className : String) (registry : Registry) (required : List Value)
    (used : List String) (key : String) (schema : Value) (field : Field) : Prop where
  name : field.name = Dto.attributeName used key
  enum : Dto.enumOf? registry schema = .ok field.enum?
  optional : (if required.contains (.str key) then isNullable schema else .ok true) = .ok field.optional
  showsEnum : ∀ name, field.enum? = some name → ShowsEnum className key field name
  showsPlain : field.enum? = none → ShowsPlain key schema field

theorem isFieldOf_of_ok {className : String} {registry : Registry} {required : List Value}
    {used : List String} {key : String} {schema : Value} {field : Field}
    (h : (Dto.fieldOf className registry required used key schema).outcome = .ok field) :
    IsFieldOf className registry required used key schema field := by
  unfold Dto.fieldOf at h
  obtain ⟨enum?, hEnum, h⟩ := Journal.exists_of_bind_ok h
  obtain ⟨optional, hOptional, h⟩ := Journal.exists_of_ite_bind_ok h
  rw [Journal.outcome_ite] at hOptional
  cases enum? with
  | some enum =>
    rw [← Except.ok.inj h]
    refine ⟨rfl, hEnum, hOptional, fun name hSome => ⟨hSome, ?_, ?_⟩, nofun⟩
    all_goals
      rw [← Option.some.inj hSome]
      rfl
  | none =>
    obtain ⟨kind, hKind, h⟩ := Journal.exists_of_bind_ok h
    rw [← Except.ok.inj h]
    exact ⟨rfl, hEnum, hOptional, nofun, fun _ => ⟨rfl, ⟨kind, hKind, rfl⟩, rfl⟩⟩

/-- The field of a property that may be absent. -/
theorem fieldOf_of_absent {className : String} {registry : Registry} {required : List Value}
    {used : List String} {key : String} {schema : Value} {enum? : Option String} {kind : Kind}
    (hEnum : Dto.enumOf? registry schema = .ok enum?) (hKind : (kindOf schema).outcome = .ok kind)
    (hAbsent : required.contains (.str key) = false) :
    (Dto.fieldOf className registry required used key schema).outcome = .ok {
      name := Dto.attributeName used key
      typeText := annotation true ((enum?.map (shownAs className)).getD kind.typeText)
      optional := true
      reader := Dto.readerText key (enum?.map (shownAs className))
      enum? } := by
  unfold Dto.fieldOf
  rw [Journal.outcome_bind, Journal.outcome_lift, hEnum, ok_bind]
  dsimp only
  rw [hAbsent, if_neg Bool.false_ne_true]
  cases enum? with
  | some enum => rfl
  | none =>
    show (kindOf schema >>= _).outcome = _
    rw [Journal.outcome_bind, hKind, ok_bind]
    rfl

section Steps

variable {className : String} {registry : Registry} {required : List Value}

/-- What a property adds: a field that is its own, or nothing. -/
theorem addField_cases {state state' : List Field × List String} {property : Value × Value}
    (h : (Dto.addField className registry required state property).outcome = .ok state') :
    (property.2.isMapping = false ∧ state' = state) ∨
      ∃ key field, property.2.isMapping = true ∧ property.1 = .str key ∧
        IsFieldOf className registry required state.2 key property.2 field ∧
        state' = (state.1 ++ [field], field.name :: state.2) := by
  unfold Dto.addField at h
  dsimp only at h
  split at h
  · rename_i hOther
    cases h
    exact Or.inl ⟨by simpa using hOther, rfl⟩
  · rename_i hMapping
    obtain ⟨key, hKey, h⟩ := Journal.exists_of_bind_ok h
    obtain ⟨field, hField, h⟩ := Journal.exists_of_bind_ok h
    cases h
    exact Or.inr ⟨key, field, by simpa using hMapping, Value.asText_ok hKey, isFieldOf_of_ok hField, rfl⟩

theorem addField_of_ok {state : List Field × List String} {key : String} {schema : Value} {field : Field}
    (hMapping : schema.isMapping = true)
    (h : (Dto.fieldOf className registry required state.2 key schema).outcome = .ok field) :
    (Dto.addField className registry required state (.str key, schema)).outcome =
      .ok (state.1 ++ [field], field.name :: state.2) := by
  unfold Dto.addField
  dsimp only
  rw [hMapping, Bool.not_true, if_neg Bool.false_ne_true, Value.asText, Journal.lift_ok_bind,
    Journal.outcome_bind, h]
  rfl

/-- The field is the one for the property, whatever names were taken before it. -/
def FieldFor (className : String) (registry : Registry) (required : List Value)
    (property : Value × Value) (field : Field) : Prop :=
  ∃ used key, property.1 = .str key ∧ IsFieldOf className registry required used key property.2 field

/-- The properties of a run add their fields in order. -/
theorem exists_of_addFields {properties : Entries} {state state' : List Field × List String}
    (h : properties.foldlM (fun state property =>
      (Dto.addField className registry required state property).outcome) state = .ok state') :
    ∃ fields, state'.1 = state.1 ++ fields ∧
      List.Forall₂ (FieldFor className registry required) (properties.filter (·.2.isMapping)) fields := by
  induction properties generalizing state with
  | nil =>
    cases h
    exact ⟨[], (List.append_nil _).symm, .nil⟩
  | cons property rest ih =>
    rw [List.foldlM_cons] at h
    obtain ⟨next, hStep, h⟩ := exists_of_bind_ok h
    obtain ⟨fields, hFields, hRest⟩ := ih h
    rcases addField_cases hStep with ⟨hOther, rfl⟩ | ⟨key, field, hMapping, hKey, hField, rfl⟩
    · rw [List.filter_cons_of_neg (by simp [hOther])]
      exact ⟨fields, hFields, hRest⟩
    · rw [List.filter_cons_of_pos (by simpa using hMapping)]
      refine ⟨field :: fields, ?_, .cons ⟨state.2, key, hKey, hField⟩ hRest⟩
      rw [hFields, List.append_assoc, List.singleton_append]

end Steps

/-- The names that the merged schema requires. -/
def mergedRequired (schema : Value) : Except Fault (List Value) := do
  (Value.orElse (← (← merge schema).member "required") (.list [])).keysOf

/-- **The run through the properties.** The fields are made from the merged properties one after
another, with the names that the class uses itself taken. -/
theorem outcome_fieldsOf (className : String) (registry : Registry) (schema : Value) :
    (Dto.fieldsOf className registry schema).outcome = (do
      let required ← mergedRequired schema
      let properties ← mergedProperties schema
      let state ← properties.foldlM (fun state property =>
        (Dto.addField className registry required state property).outcome) ([], Dto.bodyNames)
      return state.1) := by
  unfold Dto.fieldsOf mergedRequired mergedProperties
  cases merge schema with
  | error _ => rfl
  | ok object =>
    simp only [Journal.outcome_bind, Journal.outcome_lift, Journal.outcome_foldlM, ok_bind, bind_assoc]
    rfl

/-- Fields that are made come from a run through the merged properties. -/
theorem exists_run_of_fieldsOf_ok {className : String} {registry : Registry} {schema : Value}
    {fields : List Field} (h : (Dto.fieldsOf className registry schema).outcome = .ok fields) :
    ∃ properties required used, mergedProperties schema = .ok properties ∧
      mergedRequired schema = .ok required ∧
      properties.foldlM (fun state property =>
        (Dto.addField className registry required state property).outcome) ([], Dto.bodyNames) =
          .ok (fields, used) := by
  rw [outcome_fieldsOf] at h
  obtain ⟨required, hRequired, h⟩ := exists_of_bind_ok h
  obtain ⟨properties, hProperties, h⟩ := exists_of_bind_ok h
  obtain ⟨state, hRun, h⟩ := exists_of_bind_ok h
  cases h
  exact ⟨properties, required, state.2, hProperties, hRequired, hRun⟩

/-- **One field for each property.** The fields of a data class are those for the properties of
its merged schema that are mappings, in their order. -/
theorem exists_of_fieldsOf_ok {className : String} {registry : Registry} {schema : Value}
    {fields : List Field} (h : (Dto.fieldsOf className registry schema).outcome = .ok fields) :
    ∃ properties required, mergedProperties schema = .ok properties ∧
      List.Forall₂ (FieldFor className registry required) (properties.filter (·.2.isMapping)) fields := by
  obtain ⟨properties, required, used, hProperties, -, hRun⟩ := exists_run_of_fieldsOf_ok h
  obtain ⟨made, hMade, hEach⟩ := exists_of_addFields hRun
  cases hMade
  exact ⟨properties, required, hProperties, hEach⟩

/-- A data class has the fields for its schema and imports each enumeration that they show once. -/
theorem exists_of_ofSchema_ok {className : String} {registry : Registry} {schema : Value} {d : Dto}
    (h : (Dto.ofSchema className registry schema).outcome = .ok d) :
    ∃ fields, ∃ enums : List String, (Dto.fieldsOf className registry schema).outcome = .ok fields ∧
      d.name = className ∧ d.fields = Dto.orderFields fields ∧ enums.Nodup ∧
      d.enums = enums.map (fun enum => ⟨enum, Dto.enumAlias? enum className⟩) ∧
      ∀ name, name ∈ enums ↔ ∃ field ∈ fields, field.enum? = some name := by
  unfold Dto.ofSchema at h
  obtain ⟨fields, hFields, h⟩ := Journal.exists_of_bind_ok h
  obtain ⟨_, -, h⟩ := Journal.exists_of_bind_ok h
  cases h
  refine ⟨fields, _, hFields, rfl, rfl, ?_, rfl, fun name => ?_⟩
  · exact (List.mergeSort_perm _ _).nodup_iff.mpr (nodup_eraseDups _)
  · rw [List.mem_mergeSort, List.mem_eraseDups, List.mem_filterMap]

/-- A field of a data class is the one for some property. -/
theorem exists_fieldFor_of_mem {className : String} {registry : Registry} {schema : Value}
    {fields : List Field} (h : (Dto.fieldsOf className registry schema).outcome = .ok fields)
    {field : Field} (hField : field ∈ fields) :
    ∃ required property, FieldFor className registry required property field := by
  obtain ⟨properties, required, -, hEach⟩ := exists_of_fieldsOf_ok h
  obtain ⟨property, -, hFor⟩ := exists_left_of_forall₂ hEach field hField
  exact ⟨required, property, hFor⟩

end ClientGen.Unit
