import ClientGen.Proofs.Enumeration.Decoded
import ClientGen.Proofs.Naming.Fresh
import ClientGen.Proofs.Naming.Identifiers
import ClientGen.Proofs.Schema.WellFormed
import ClientGen.Proofs.Text.Literals
import ClientGen.Proofs.Unit.Fields
import Mathlib.Data.List.Forall2
import Mathlib.Data.List.Nodup
import Mathlib.Data.List.Permutation

/-!
# Data classes are well formed

The fields of a data class become attributes, so their names have to be different names of
the language, and none of the four that the class guards. Keys that come out alike are
told apart by underscores, added until the name is free. Fields without a default have to
come first, and so the fields are split in two and put together again.

Main results:

* `named_of_addFields` — the names of the fields, kept apart step by step.
* `filter_orderFields` / `pairwise_orderFields` — putting the fields in order.
* `exists_ofSchema_ok` — a well-formed schema has a data class.
* `looksUp_readerText` — a field looks up the key of its property.
* `dataFields_of_schema` — the data class has one legal field for each property.
-/

namespace ClientGen.Unit

open ClientGen.Document ClientGen.Document.Value ClientGen.Enumeration ClientGen.Naming
  ClientGen.Schema ClientGen.Text

-- ---------------------------------------------------------------------------
-- Attributes
-- ---------------------------------------------------------------------------

/-- Each further underscore gives another name. -/
theorem underscored_inj {base : String} {m n : Nat} (h : underscored base m = underscored base n) :
    m = n := by
  have hLength := congrArg String.length h
  simpa [underscored] using hLength

/-- An attribute has a name that is free. -/
theorem attributeName_not_mem (used : List String) (key : String) :
    Dto.attributeName used key ∉ used :=
  fresh_not_mem fun _ _ _ _ h => underscored_inj h

/-- With underscores after it, the name that a key comes out as is a name of the language. -/
theorem isName_underscored (key : String) (n : Nat) : IsName (underscored (argumentName key) n) := by
  have hName := (isNameBeside_argumentName key).toIsName
  cases n with
  | zero =>
    show IsName (argumentName key ++ "")
    rw [String.append_empty]
    exact hName
  | succ n =>
    have hMarks : IdentifierChars (.ofList (List.replicate (n + 1) '_')) := by
      intro c hc
      rw [String.toList_ofList] at hc
      rw [List.eq_of_mem_replicate hc]
      decide
    refine (hName.toIsIdentifier.beside_append lettered_keywords hMarks (c := '_') ?_ (by decide)).toIsName
    rw [String.toList_ofList]
    exact List.mem_cons_self

theorem isName_attributeName (used : List String) (key : String) :
    IsName (Dto.attributeName used key) := isName_underscored key _

/-- The names in use are those of the class body and of the fields so far, all different, and those
of the fields are names of the language. -/
structure Named (state : List Field × List String) : Prop where
  used     : state.2 = (state.1.map Field.name).reverse ++ Dto.bodyNames
  distinct : state.2.Nodup
  legal    : ∀ field ∈ state.1, IsName field.name

section Steps

variable {className : String} {registry : Registry} {required : List Value}

/-- Each property keeps this. -/
theorem Named.step {state state' : List Field × List String} {property : Value × Value}
    (hState : Named state)
    (h : (Dto.addField className registry required state property).outcome = .ok state') :
    Named state' := by
  rcases addField_cases h with ⟨-, rfl⟩ | ⟨key, field, -, -, hField, rfl⟩
  · exact hState
  · refine ⟨?_, ?_, ?_⟩
    · show field.name :: state.2 = ((state.1 ++ [field]).map Field.name).reverse ++ Dto.bodyNames
      rw [hState.used]
      simp
    · refine List.nodup_cons.mpr ⟨?_, hState.distinct⟩
      rw [hField.name]
      exact attributeName_not_mem state.2 key
    · intro other hOther
      rcases List.mem_append.mp hOther with hOther | hOther
      · exact hState.legal other hOther
      · rw [List.mem_singleton.mp hOther, hField.name]
        exact isName_attributeName state.2 key

theorem named_of_addFields {properties : Entries} {state : List Field × List String}
    (h : properties.foldlM (fun state property =>
      (Dto.addField className registry required state property).outcome) ([], Dto.bodyNames) =
        .ok state) : Named state := by
  refine foldlM_ok_induction Named ⟨rfl, by decide, by simp⟩ ?_ h
  intro _ _ _ _ hState hStep
  exact hState.step hStep

end Steps

/-- The names of fields are different names of the language, and none of the four that the class body
guards. -/
structure LegalNames (fields : List Field) : Prop where
  distinct : (fields.map Field.name).Nodup
  legal    : ∀ field ∈ fields, IsName field.name
  free     : ∀ field ∈ fields, field.name ∉ ["raw", "field", "dataclass", "from_dict"]

theorem Named.legalNames {state : List Field × List String} (h : Named state) : LegalNames state.1 := by
  have hDistinct := h.distinct
  rw [h.used, List.nodup_append] at hDistinct
  obtain ⟨hNames, -, hApart⟩ := hDistinct
  refine ⟨List.nodup_reverse.mp hNames, h.legal, ?_⟩
  intro field hField hUsed
  exact hApart _ (List.mem_reverse.mpr (List.mem_map_of_mem hField)) _ hUsed rfl

theorem LegalNames.perm {fields fields' : List Field} (h : LegalNames fields)
    (hPerm : fields'.Perm fields) : LegalNames fields' where
  distinct := (hPerm.map Field.name).nodup_iff.mpr h.distinct
  legal := fun field hField => h.legal field (hPerm.mem_iff.mp hField)
  free := fun field hField => h.free field (hPerm.mem_iff.mp hField)

-- ---------------------------------------------------------------------------
-- Order
-- ---------------------------------------------------------------------------

/-- Putting fields in order loses none. -/
theorem orderFields_perm (fields : List Field) : (Dto.orderFields fields).Perm fields := by
  have hSplit := List.filter_append_perm (fun field : Field => !field.optional) fields
  simpa [Dto.orderFields] using hSplit

/-- No field without a default comes after one that has one. -/
theorem pairwise_orderFields (fields : List Field) :
    (Dto.orderFields fields).Pairwise fun f g => f.optional = true → g.optional = true := by
  rw [Dto.orderFields, List.pairwise_append]
  refine ⟨?_, ?_, ?_⟩
  · refine List.pairwise_of_forall_mem_list ?_
    intro f hf _ _ hOptional
    simp [hOptional] at hf
  · refine List.pairwise_of_forall_mem_list ?_
    intro _ _ g hg _
    exact (List.mem_filter.mp hg).2
  · intro _ _ g hg _
    exact (List.mem_filter.mp hg).2

/-- In each of the two groups the fields keep their order. -/
theorem filter_orderFields (fields : List Field) (optional : Bool) :
    (Dto.orderFields fields).filter (·.optional == optional) =
      fields.filter (·.optional == optional) := by
  rw [Dto.orderFields, List.filter_append, List.filter_filter, List.filter_filter]
  cases optional <;> simp

-- ---------------------------------------------------------------------------
-- Well-formed schemas have fields
-- ---------------------------------------------------------------------------

/-- Whatever enumerations there are, it is known which one listed texts have. -/
theorem exists_enumOf?_ok (registry : Registry) {schema : Value} (h : WellFormed schema) :
    ∃ enum?, Dto.enumOf? registry schema = .ok enum? := by
  obtain ⟨values?, hValues⟩ := exists_enumValues?_ok schema h
  unfold Dto.enumOf?
  rw [hValues, ok_bind]
  cases values? with
  | none => exact ⟨none, rfl⟩
  | some values =>
    dsimp only
    split
    · rename_i hTexts
      have hJson : ∀ v ∈ values, Json.IsJson v := by
        intro v hv
        have hText := List.all_eq_true.mp hTexts v hv
        cases v with
        | str text => exact .str text
        | _ => cases hText
      rw [Registry.nameOf?, signature_json hJson]
      exact ⟨_, rfl⟩
    · exact ⟨none, rfl⟩

theorem exists_fieldOf_ok (className : String) (registry : Registry) (required : List Value)
    (used : List String) (key : String) {schema : Value} (h : WellFormed schema) :
    ∃ field, (Dto.fieldOf className registry required used key schema).outcome = .ok field := by
  unfold Dto.fieldOf
  refine Journal.exists_bind_ok (exists_enumOf?_ok registry h) ?_
  intro enum? _
  refine Journal.exists_ite_bind_ok (exists_isNullable_ok h) ⟨true, rfl⟩ ?_
  intro optional
  cases enum? with
  | some enum => exact ⟨_, rfl⟩
  | none => exact Journal.exists_bind_ok (exists_kindOf_ok schema h) fun _ _ => ⟨_, rfl⟩

/-- The properties that are mappings have texts for keys. -/
def TextKeyed (properties : Entries) : Prop := ∀ e ∈ properties, e.2.isMapping = true → e.1.isText = true

instance (properties : Entries) : Decidable (TextKeyed properties) :=
  inferInstanceAs (Decidable (∀ e ∈ properties, e.2.isMapping = true → e.1.isText = true))

theorem exists_addField_ok {className : String} {registry : Registry} {required : List Value}
    {property : Value × Value} (h : WellFormed property.2)
    (hKey : property.2.isMapping = true → property.1.isText = true) (state : List Field × List String) :
    ∃ state', (Dto.addField className registry required state property).outcome = .ok state' := by
  obtain ⟨name, schema⟩ := property
  by_cases hMapping : schema.isMapping = true
  · have hText := hKey hMapping
    cases name with
    | str key =>
      obtain ⟨field, hField⟩ := exists_fieldOf_ok className registry required state.2 key h
      exact ⟨_, addField_of_ok hMapping hField⟩
    | _ => cases hText
  · unfold Dto.addField
    dsimp only
    rw [if_pos (by simpa using hMapping)]
    exact ⟨state, rfl⟩

theorem exists_mergedRequired_ok {schema : Value} (h : WellFormed schema)
    (hMapping : schema.isMapping = true) : ∃ required, mergedRequired schema = .ok required := by
  obtain ⟨object, hObject, hObjectMapping, hObjectFits⟩ := exists_merge_ok schema h hMapping
  obtain ⟨names, hNames, hKeys⟩ := hObjectFits.required
  have hStated : orElse (object.field? "required") (.list []) = .list names := by
    cases hField : object.field? "required" with
    | none =>
      rw [hField] at hNames
      exact hNames
    | some v =>
      rw [hField] at hNames
      rw [show v = .list names from hNames]
      cases names <;> rfl
  refine ⟨names, ?_⟩
  rw [mergedRequired, hObject, ok_bind, member_of_isMapping hObjectMapping, ok_bind, hStated, keysOf,
    elements, ok_bind, if_pos hKeys]
  rfl

/-- A well-formed object schema has fields, whatever enumerations there are. -/
theorem exists_fieldsOf_ok (className : String) (registry : Registry) {schema : Value}
    (h : WellFormed schema) (hMapping : schema.isMapping = true)
    (hKeys : ∀ properties, mergedProperties schema = .ok properties → TextKeyed properties) :
    ∃ fields, (Dto.fieldsOf className registry schema).outcome = .ok fields := by
  obtain ⟨required, hRequired⟩ := exists_mergedRequired_ok h hMapping
  obtain ⟨properties, hProperties, hEach⟩ := exists_mergedProperties_ok h hMapping
  obtain ⟨state, hState⟩ := exists_foldlM_ok
    (f := fun state property => (Dto.addField className registry required state property).outcome)
    (fun state e he => exists_addField_ok (hEach e he) (hKeys properties hProperties e he) state)
    ([], Dto.bodyNames)
  rw [outcome_fieldsOf, hRequired, ok_bind, hProperties, ok_bind, hState]
  exact ⟨state.1, rfl⟩

theorem exists_ofSchema_ok (className : String) (registry : Registry) {schema : Value}
    (h : WellFormed schema) (hMapping : schema.isMapping = true)
    (hKeys : ∀ properties, mergedProperties schema = .ok properties → TextKeyed properties) :
    ∃ d, (Dto.ofSchema className registry schema).outcome = .ok d := by
  unfold Dto.ofSchema
  refine Journal.exists_bind_ok (exists_fieldsOf_ok className registry h hMapping hKeys) ?_
  intro fields _
  refine Journal.exists_bind_ok ⟨_, member_of_isMapping hMapping "description"⟩ ?_
  intro description _
  exact ⟨_, rfl⟩

-- ---------------------------------------------------------------------------
-- Data classes
-- ---------------------------------------------------------------------------

/-- The expression looks the key up in the decoded data, and gives what is found there or the member of
an enumeration that it is the value of. -/
inductive LooksUp (key : String) : String → Prop
  | value {literal : String} (h : denoted? literal = some key) :
      LooksUp key ("data.get(" ++ literal ++ ")")
  | member {literal : String} (enum : String) (h : denoted? literal = some key) :
      LooksUp key (enum ++ "(data[" ++ literal ++ "]) if data.get(" ++ literal ++ ") is not None else None")

theorem looksUp_readerText (key : String) (enum? : Option String) :
    LooksUp key (Dto.readerText key enum?) := by
  have hKey := denoted?_quoted key
  cases enum? with
  | none => exact .value hKey
  | some enum =>
    have hMember := LooksUp.member enum hKey
    rw [Dto.readerText]
    simp only [String.append_assoc] at hMember ⊢
    exact hMember

/-- The field reads the property by the key of the property itself. -/
def Reads (property : Value × Value) (field : Field) : Prop :=
  ∃ key, property.1 = .str key ∧ LooksUp key field.reader

theorem FieldFor.reads {className : String} {registry : Registry} {required : List Value}
    {property : Value × Value} {field : Field} (h : FieldFor className registry required property field) :
    Reads property field := by
  obtain ⟨used, key, hKey, hField⟩ := h
  refine ⟨key, hKey, ?_⟩
  cases hEnum : field.enum? with
  | some name =>
    rw [(hField.showsEnum name hEnum).reader]
    exact looksUp_readerText key _
  | none =>
    rw [(hField.showsPlain hEnum).reader]
    exact looksUp_readerText key none

/--
**Data classes are well formed.** A well-formed object schema whose merged properties have texts for
keys has a data class, whatever enumerations there are. Any schema that has one has exactly one field
for each property of the merged schema that is a mapping, and the field reads the property by its own
key. The names of the fields are different names of the language, and none is one of the four that
the class guards. No field without a default comes after one with a default, and among those with one,
as among those without, the fields have the order of the properties.
-/
theorem dataFields_of_schema (className : String) (registry : Registry) (schema : Value) :
    (WellFormed schema → schema.isMapping = true →
      (∀ properties, mergedProperties schema = .ok properties → TextKeyed properties) →
      ∃ d, (Dto.ofSchema className registry schema).outcome = .ok d) ∧
    ∀ d, (Dto.ofSchema className registry schema).outcome = .ok d →
      ∃ properties required fields, mergedProperties schema = .ok properties ∧
        mergedRequired schema = .ok required ∧
        List.Forall₂ (fun property field =>
          FieldFor className registry required property field ∧ Reads property field)
          (properties.filter (·.2.isMapping)) fields ∧
        d.fields.Perm fields ∧
        (∀ optional, d.fields.filter (·.optional == optional) = fields.filter (·.optional == optional)) ∧
        d.fields.Pairwise (fun f g => f.optional = true → g.optional = true) ∧
        LegalNames d.fields := by
  refine ⟨fun h hMapping hKeys => exists_ofSchema_ok className registry h hMapping hKeys, ?_⟩
  intro d h
  obtain ⟨fields, -, hFields, -, hOrder, -⟩ := exists_of_ofSchema_ok h
  obtain ⟨properties, required, used, hProperties, hRequired, hRun⟩ := exists_run_of_fieldsOf_ok hFields
  obtain ⟨made, hMade, hEach⟩ := exists_of_addFields hRun
  cases hMade
  have hPerm := orderFields_perm fields
  have hLegal := (named_of_addFields hRun).legalNames.perm hPerm
  rw [hOrder]
  exact ⟨properties, required, fields, hProperties, hRequired, hEach.imp fun _ _ hFor => ⟨hFor, hFor.reads⟩,
    hPerm, filter_orderFields fields, pairwise_orderFields fields, hLegal⟩

/-- A schema that only has a type. -/
def typed (name : String) : Value := .map [(.str "type", .str name)]

/-- What the accounts of all systems have. -/
def sharedAccount : Value := .map [(.str "properties", .map [(.str "userId", typed "integer")])]

/-- What the accounts here have. -/
def ownAccount : Value :=
  .map [
    (.str "properties", .map [(.str "user_id", typed "string"), (.str "raw", typed "boolean"),
      (.str "note", .bool true), (.str "user-id", typed "string")]),
    (.str "required", .list [.str "raw"])]

/-- An account, composed of both. Three of its keys come out alike, one property is no mapping, and
the required one has a name that the class body uses. -/
def accountSchema : Value := .map [(.str "allOf", .list [sharedAccount, ownAccount])]

theorem mergedProperties_accountSchema : mergedProperties accountSchema =
    .ok [(.str "userId", typed "integer"), (.str "user_id", typed "string"), (.str "raw", typed "boolean"),
      (.str "note", .bool true), (.str "user-id", typed "string")] := by
  have hStated : accountSchema.field? "allOf" = some (.list [sharedAccount, ownAccount]) := by
    simp [accountSchema, field?, Dictionary.get?]
  have hParts : ownParts accountSchema = .ok ⟨[], []⟩ := by cbv
  have hSharedParts : ownParts sharedAccount = .ok ⟨[(.str "userId", typed "integer")], []⟩ := by cbv
  have hOwnParts : ownParts ownAccount = .ok ⟨[(.str "user_id", typed "string"),
      (.str "raw", typed "boolean"), (.str "note", .bool true), (.str "user-id", typed "string")],
      [.str "raw"]⟩ := by cbv
  have hShared : merge sharedAccount = .ok sharedAccount :=
    merge_of_plain rfl (by simp [sharedAccount, field?, Dictionary.get?])
  have hOwn : merge ownAccount = .ok ownAccount :=
    merge_of_plain rfl (by simp [ownAccount, field?, Dictionary.get?])
  rw [mergedProperties, merge_of_members hStated, hParts, ok_bind, mergeMembers_cons rfl hShared hSharedParts,
    mergeMembers_cons rfl hOwn hOwnParts, mergeMembers]
  cbv

/-- The account has a data class with a field for each of its four properties that are mappings. Their
names are legal, and none is a guarded one, though there is a property `raw`. -/
theorem dataFields_of_accountSchema :
    WellFormed accountSchema ∧ accountSchema.isMapping = true ∧
      (∀ properties, mergedProperties accountSchema = .ok properties → TextKeyed properties) ∧
      ∃ d, (Dto.ofSchema "Account" {} accountSchema).outcome = .ok d ∧ d.fields.length = 4 ∧
        (∀ field ∈ d.fields, field.name ∉ ["raw", "field", "dataclass", "from_dict"]) ∧
        LegalNames d.fields := by
  have hFits : WellFormed accountSchema := by decide +kernel
  have hKeys : ∀ properties, mergedProperties accountSchema = .ok properties → TextKeyed properties := by
    intro properties h
    rw [mergedProperties_accountSchema] at h
    cases h
    decide +kernel
  obtain ⟨hSome, hEach⟩ := dataFields_of_schema "Account" {} accountSchema
  obtain ⟨d, hMade⟩ := hSome hFits rfl hKeys
  obtain ⟨properties, required, fields, hProperties, -, hFields, hPerm, -, -, hLegal⟩ := hEach d hMade
  refine ⟨hFits, rfl, hKeys, d, hMade, ?_, hLegal.free, hLegal⟩
  rw [mergedProperties_accountSchema] at hProperties
  cases hProperties
  rw [hPerm.length_eq, ← hFields.length_eq]
  rfl

end ClientGen.Unit
