import ClientGen.Proofs.Schema.Properties

/-!
# Well-formed schemas

Documents come unchecked: a pass that needs a mapping and meets a list fails. This module
says what a schema must look like for no pass to fail: at any depth `properties` is a
mapping, a composition is a list, and `required` lists what can be a key. Nothing is asked
of the other keys, and a schema in place of which anything else stands is read as one
that says nothing.

Main results:

* `exists_merge_ok` — a well-formed schema is merged into a well-formed schema.
* `exists_kindOf_ok` / `exists_isNullable_ok` / `exists_enumValues?_ok` — its kind, whether
  it admits null and its literal values are known.
* `exists_bodyParameters_ok` — as the schema of a body it has body parameters.
-/

namespace ClientGen.Schema

open ClientGen.Api ClientGen.Document ClientGen.Document.Value

-- ---------------------------------------------------------------------------
-- What stands where
-- ---------------------------------------------------------------------------

/-- What a place in a schema asks for. -/
inductive Form where
  | schema | properties | composition | names | any

namespace Form

/-- What the value at a key of a schema has to be. -/
def ofKey : Value → Form
  | .str "properties" => properties
  | .str "required" => names
  | .str "allOf" => composition
  | .str "oneOf" => composition
  | .str "anyOf" => composition
  | _ => any

mutual

/-- Is the value what the place asks for? -/
def fits : Form → Value → Bool
  | any, _ => true
  | schema, .map entries => membersFit entries
  | schema, _ => true
  | properties, .map entries => valuesFit entries
  | properties, _ => false
  | composition, .list items => itemsFit items
  | composition, _ => false
  | names, .list items => items.all canBeKey
  | names, _ => false

/-- Is what the entries of a schema hold what their keys ask for? -/
def membersFit : List (Value × Value) → Bool
  | [] => true
  | (k, v) :: es => fits (ofKey k) v && membersFit es

/-- Are all values of a mapping schemas? -/
def valuesFit : List (Value × Value) → Bool
  | [] => true
  | (_, v) :: es => fits schema v && valuesFit es

/-- Are all items of a list schemas? -/
def itemsFit : List Value → Bool
  | [] => true
  | v :: vs => fits schema v && itemsFit vs

end

theorem membersFit_iff {entries : Entries} :
    membersFit entries = true ↔ ∀ e ∈ entries, (ofKey e.1).fits e.2 = true := by
  induction entries with
  | nil => simp [membersFit]
  | cons e es ih =>
    obtain ⟨k, v⟩ := e
    simp [membersFit, ih]

theorem valuesFit_iff {entries : Entries} :
    valuesFit entries = true ↔ ∀ e ∈ entries, schema.fits e.2 = true := by
  induction entries with
  | nil => simp [valuesFit]
  | cons e es ih =>
    obtain ⟨k, v⟩ := e
    simp [valuesFit, ih]

theorem itemsFit_iff {items : List Value} :
    itemsFit items = true ↔ ∀ v ∈ items, schema.fits v = true := by
  induction items with
  | nil => simp [itemsFit]
  | cons v vs ih => simp [itemsFit, ih]

end Form

/-- The schema is what the passes need at every depth. -/
def WellFormed (schema : Value) : Prop := Form.schema.fits schema = true

instance (schema : Value) : Decidable (WellFormed schema) :=
  inferInstanceAs (Decidable (Form.schema.fits schema = true))

namespace WellFormed

variable {schema : Value}

/-- What a key of a well-formed schema holds is what the key asks for. -/
theorem field (h : WellFormed schema) {name : String} {v : Value} (hField : schema.field? name = some v) :
    (Form.ofKey (.str name)).fits v = true := by
  cases schema with
  | map entries =>
    obtain ⟨e, he, hKey, rfl⟩ := Dictionary.exists_of_get? hField
    rw [← beq_str.mp hKey]
    exact Form.membersFit_iff.mp h e he
  | _ => cases hField

theorem properties (h : WellFormed schema) :
    ∃ entries : Entries, (schema.field? "properties").getD .emptyMap = .map entries ∧
      ∀ e ∈ entries, WellFormed e.2 := by
  cases hField : schema.field? "properties" with
  | none => exact ⟨[], rfl, by simp⟩
  | some v =>
    have hFits : Form.properties.fits v = true := h.field hField
    cases v with
    | map entries => exact ⟨entries, rfl, Form.valuesFit_iff.mp hFits⟩
    | _ => cases hFits

theorem required (h : WellFormed schema) :
    ∃ names : List Value, (schema.field? "required").getD (.list []) = .list names ∧
      names.all canBeKey = true := by
  cases hField : schema.field? "required" with
  | none => exact ⟨[], rfl, rfl⟩
  | some v =>
    have hFits : Form.names.fits v = true := h.field hField
    cases v with
    | list names => exact ⟨names, rfl, hFits⟩
    | _ => cases hFits

/-- The keys of compositions hold lists of schemas. -/
theorem members (h : WellFormed schema) {key : String} {v : Value}
    (hKey : Form.ofKey (.str key) = .composition) (hField : schema.field? key = some v) :
    ∃ items, v = .list items ∧ ∀ item ∈ items, WellFormed item := by
  have hFits := h.field hField
  rw [hKey] at hFits
  cases v with
  | list items => exact ⟨items, rfl, Form.itemsFit_iff.mp hFits⟩
  | _ => cases hFits

end WellFormed

-- ---------------------------------------------------------------------------
-- Merging
-- ---------------------------------------------------------------------------

/-- The parts are those of a well-formed schema. -/
structure Merged.WellFormed (m : Merged) : Prop where
  properties : ∀ v ∈ m.properties.values, Schema.WellFormed v
  required   : m.required.all canBeKey = true

theorem exists_ownParts_ok {schema : Value} (h : WellFormed schema) :
    ∃ parts, ownParts schema = .ok parts ∧ parts.WellFormed := by
  obtain ⟨entries, hEntries, hEach⟩ := h.properties
  obtain ⟨names, hNames, hKeys⟩ := h.required
  refine ⟨⟨Dictionary.ofEntries entries, names⟩, ?_, ?_, hKeys⟩
  · rw [ownParts, hEntries, hNames]
    rfl
  · intro v hv
    obtain ⟨e, he, rfl⟩ := List.mem_map.mp (Dictionary.mem_values_ofEntries hv)
    exact hEach e he

theorem Merged.WellFormed.add {m n : Merged} (hm : m.WellFormed) (hn : n.WellFormed) :
    (m.add n).WellFormed := by
  constructor
  · intro v hv
    rcases Dictionary.mem_values_overlay hv with hv | hv
    · exact hm.properties v hv
    · exact hn.properties v hv
  · rw [Merged.add, List.all_append, hm.required, hn.required, Bool.and_self]

theorem Merged.WellFormed.toSchema {m : Merged} (h : m.WellFormed) :
    Schema.WellFormed m.toSchema := by
  have hProperties : Form.properties.fits (.map m.properties) = true := by
    rw [Form.fits, Form.valuesFit_iff]
    exact fun e he => h.properties e.2 (List.mem_map_of_mem he)
  have hRequired : Form.names.fits (.list m.required) = true := h.required
  refine Form.membersFit_iff.mpr ?_
  intro e he
  simp only [List.mem_cons, List.not_mem_nil, or_false] at he
  rcases he with rfl | rfl | rfl
  · rfl
  · exact hProperties
  · exact hRequired

mutual

/-- **Merging well-formed schemas.** A well-formed schema is merged, and the object schema that
it stands for is well-formed again. -/
theorem exists_merge_ok (schema : Value) (h : WellFormed schema) (hMapping : schema.isMapping = true) :
    ∃ object, merge schema = .ok object ∧ object.isMapping = true ∧ WellFormed object := by
  match hStated : schema.field? "allOf" with
  | none => exact ⟨schema, merge_of_plain hMapping hStated, hMapping, h⟩
  | some stated =>
    obtain ⟨items, rfl, hItems⟩ := h.members rfl hStated
    obtain ⟨own, hOwn, hOwnFits⟩ := exists_ownParts_ok h
    have hDeeper := field?_depth hStated
    obtain ⟨total, hTotal, hFits⟩ := exists_mergeMembers_ok own items hOwnFits hItems
    refine ⟨total.toSchema, ?_, rfl, hFits.toSchema⟩
    rw [merge_of_members hStated, hOwn, ok_bind, hTotal, ok_bind]
    rfl
termination_by (schema.depth, 0)
decreasing_by
  simp only [Prod.lex_def, Value.depth] at *
  omega

theorem exists_mergeMembers_ok (parts : Merged) (members : List Value) (hParts : parts.WellFormed)
    (hMembers : ∀ member ∈ members, WellFormed member) :
    ∃ total, mergeMembers parts members = .ok total ∧ total.WellFormed := by
  match members with
  | [] =>
    rw [mergeMembers]
    exact ⟨parts, rfl, hParts⟩
  | member :: rest =>
    obtain ⟨hHead, hRest⟩ := List.forall_mem_cons.mp hMembers
    by_cases hMapping : member.isMapping = true
    · obtain ⟨object, hObject, -, hObjectFits⟩ := exists_merge_ok member hHead hMapping
      obtain ⟨own, hOwn, hOwnFits⟩ := exists_ownParts_ok hObjectFits
      rw [mergeMembers_cons hMapping hObject hOwn]
      exact exists_mergeMembers_ok _ rest (hParts.add hOwnFits) hRest
    · rw [mergeMembers, if_neg hMapping]
      exact exists_mergeMembers_ok parts rest hParts hRest
termination_by (Value.itemsDepth members, members.length + 1)
decreasing_by all_goals simp only [Value.itemsDepth, Prod.lex_def, List.length_cons]; omega

end

theorem exists_requiredNames_ok {object : Value} (h : WellFormed object)
    (hMapping : object.isMapping = true) : ∃ names, requiredNames object = .ok names := by
  obtain ⟨names, hNames, hKeys⟩ := h.required
  refine ⟨names, ?_⟩
  rw [requiredNames, member_of_isMapping hMapping, ok_bind, hNames, keysOf, elements, ok_bind,
    if_pos hKeys]
  rfl

/-- The merged properties of a well-formed schema are well-formed schemas. -/
theorem exists_mergedProperties_ok {schema : Value} (h : WellFormed schema)
    (hMapping : schema.isMapping = true) :
    ∃ properties, mergedProperties schema = .ok properties ∧ ∀ e ∈ properties, WellFormed e.2 := by
  obtain ⟨object, hObject, hObjectMapping, hObjectFits⟩ := exists_merge_ok schema h hMapping
  obtain ⟨entries, hEntries, hEach⟩ := hObjectFits.properties
  refine ⟨entries, ?_, hEach⟩
  rw [mergedProperties, hObject, ok_bind, member_of_isMapping hObjectMapping, ok_bind]
  cases hField : object.field? "properties" with
  | none =>
    rw [hField] at hEntries
    cases hEntries
    rfl
  | some v =>
    rw [hField] at hEntries
    rw [show v = .map entries from hEntries, orElse_map]
    rfl

-- ---------------------------------------------------------------------------
-- What a schema says
-- ---------------------------------------------------------------------------

theorem exists_agreedKind_ok (keyword : String) (kinds : List Kind) :
    ∃ kind, (agreedKind keyword kinds).outcome = .ok kind := by
  unfold agreedKind
  split
  · exact ⟨_, rfl⟩
  · exact ⟨.dynamic, rfl⟩

mutual

/-- A well-formed schema has a kind. -/
theorem exists_kindOf_ok (schema : Value) (h : WellFormed schema) :
    ∃ kind, (kindOf schema).outcome = .ok kind := by
  rw [kindOf]
  split
  · exact ⟨.dynamic, rfl⟩
  · split
    · exact ⟨_, rfl⟩
    · split
      · rename_i hAllOf
        obtain ⟨items, rfl, hItems⟩ := h.members rfl hAllOf
        have hDeeper := field?_depth hAllOf
        refine Journal.exists_bind_ok (exists_memberKinds_ok false items hItems) ?_
        intro kinds _
        split
        · exact ⟨.mapping, rfl⟩
        · exact exists_agreedKind_ok "allOf" kinds
      · split
        · rename_i hOneOf
          obtain ⟨items, rfl, hItems⟩ := h.members rfl hOneOf
          have hDeeper := field?_depth hOneOf
          exact Journal.exists_bind_ok (exists_memberKinds_ok true items hItems)
            fun kinds _ => exists_agreedKind_ok "oneOf" kinds
        · split
          · rename_i hAnyOf
            obtain ⟨items, rfl, hItems⟩ := h.members rfl hAnyOf
            have hDeeper := field?_depth hAnyOf
            exact Journal.exists_bind_ok (exists_memberKinds_ok true items hItems)
              fun kinds _ => exists_agreedKind_ok "anyOf" kinds
          · exact ⟨_, rfl⟩
termination_by (schema.depth, 0)
decreasing_by all_goals exact Prod.Lex.left _ _ hDeeper

theorem exists_memberKinds_ok (skipNull : Bool) (items : List Value)
    (hItems : ∀ item ∈ items, WellFormed item) :
    ∃ kinds, (memberKinds skipNull (.list items)).outcome = .ok kinds := by
  rw [memberKinds]
  exact exists_itemKinds_ok skipNull items hItems
termination_by ((Value.list items).depth, 1)
decreasing_by exact Prod.Lex.left _ _ (Nat.lt_succ_self _)

theorem exists_itemKinds_ok (skipNull : Bool) (items : List Value)
    (hItems : ∀ item ∈ items, WellFormed item) :
    ∃ kinds, (itemKinds skipNull items).outcome = .ok kinds := by
  match items with
  | [] =>
    rw [itemKinds]
    exact ⟨[], rfl⟩
  | item :: rest =>
    obtain ⟨hHead, hRest⟩ := List.forall_mem_cons.mp hItems
    rw [itemKinds]
    split
    · exact exists_itemKinds_ok skipNull rest hRest
    · refine Journal.exists_bind_ok (exists_kindOf_ok item hHead) ?_
      intro kind _
      exact Journal.exists_bind_ok (exists_itemKinds_ok skipNull rest hRest) fun kinds _ => ⟨_, rfl⟩
termination_by (Value.itemsDepth items, items.length + 1)
decreasing_by all_goals simp only [Value.itemsDepth, Prod.lex_def, List.length_cons]; omega

end

theorem exists_offersNull_ok {schema : Value} (h : WellFormed schema) (key : String)
    (hKey : Form.ofKey (.str key) = .composition) : ∃ offered, offersNull schema key = .ok offered := by
  unfold offersNull
  split
  · exact ⟨false, rfl⟩
  · rename_i hField
    obtain ⟨items, rfl, -⟩ := h.members hKey hField
    exact ⟨_, rfl⟩

/-- Whether a well-formed schema admits null is known. -/
theorem exists_isNullable_ok {schema : Value} (h : WellFormed schema) :
    ∃ nullable, isNullable schema = .ok nullable := by
  obtain ⟨one, hOne⟩ := exists_offersNull_ok h "oneOf" rfl
  obtain ⟨any, hAny⟩ := exists_offersNull_ok h "anyOf" rfl
  unfold isNullable
  rw [hOne, hAny]
  simp only [ok_bind]
  -- only the two compositions can fail; each branch that is left returns
  repeat' split
  all_goals exact ⟨_, rfl⟩

mutual

/-- The literal values of a well-formed schema are known. -/
theorem exists_enumValues?_ok (schema : Value) (h : WellFormed schema) :
    ∃ values, enumValues? schema = .ok values := by
  rw [enumValues?]
  split
  · exact ⟨_, rfl⟩
  · split
    · exact ⟨none, rfl⟩
    · rename_i members hMembers
      obtain ⟨items, hSame, hItems⟩ := h.members rfl hMembers
      cases hSame
      have hDeeper := field?_depth hMembers
      exact exists_firstEnum?_ok members hItems
    · rename_i other hNoList hOther
      obtain ⟨items, rfl, -⟩ := h.members rfl hOther
      exact absurd rfl (hNoList items)
termination_by (schema.depth, 0)
decreasing_by
  simp only [Prod.lex_def, Value.depth] at *
  omega

theorem exists_firstEnum?_ok (items : List Value) (hItems : ∀ item ∈ items, WellFormed item) :
    ∃ values, firstEnum? items = .ok values := by
  match items with
  | [] =>
    rw [firstEnum?]
    exact ⟨none, rfl⟩
  | item :: rest =>
    obtain ⟨hHead, hRest⟩ := List.forall_mem_cons.mp hItems
    obtain ⟨values, hValues⟩ := exists_enumValues?_ok item hHead
    rw [firstEnum?, hValues, ok_bind]
    cases values with
    | some values => exact ⟨some values, rfl⟩
    | none => exact exists_firstEnum?_ok rest hRest
termination_by (Value.itemsDepth items, items.length + 1)
decreasing_by all_goals simp only [Value.itemsDepth, Prod.lex_def, List.length_cons]; omega

end

-- ---------------------------------------------------------------------------
-- Body parameters
-- ---------------------------------------------------------------------------

theorem isMapping_of_isSendable {schema : Value} (h : isSendable schema = true) :
    schema.isMapping = true := (Bool.and_eq_true_iff.mp h).1

theorem exists_parameterOf_ok {name schema : Value} {required : Bool} (h : WellFormed schema)
    (kind : Kind) (properties : List Parameter) :
    ∃ p, parameterOf name schema required kind properties = .ok p := by
  obtain ⟨nullable, hNullable⟩ : ∃ nullable,
      (if required then isNullable schema else .ok true) = .ok nullable := by
    split
    · exact exists_isNullable_ok h
    · exact ⟨true, rfl⟩
  obtain ⟨values, hValues⟩ := exists_enumValues?_ok schema h
  rw [parameterOf, hNullable, ok_bind, hValues]
  exact ⟨_, rfl⟩

/-- A well-formed property has a parameter. -/
theorem exists_propertyParameter_ok (name schema : Value) (required : Bool) (h : WellFormed schema)
    (hMapping : schema.isMapping = true) :
    ∃ p, (propertyParameter name schema required).outcome = .ok p := by
  obtain ⟨kind, hKind⟩ := exists_kindOf_ok schema h
  obtain ⟨object, hObject, hObjectMapping, hObjectFits⟩ := exists_merge_ok schema h hMapping
  obtain ⟨names, hNames⟩ := exists_requiredNames_ok hObjectFits hObjectMapping
  obtain ⟨properties, hProperties, hEach⟩ := exists_mergedProperties_ok h hMapping
  have hInline : ∃ ps, inlineParameters schema = .ok ps := by
    rw [inlineParameters, hObject, ok_bind, hNames, ok_bind, hProperties, ok_bind]
    refine exists_mapM_ok ?_
    intro e he
    obtain ⟨hMem, hSendable⟩ := mem_sendables.mp he
    have hDeeper := mergedProperties_depth hProperties e hMem
    exact exists_propertyParameter_ok e.1 e.2 _ (hEach e hMem) (isMapping_of_isSendable hSendable)
  rw [outcome_propertyParameter, hKind, ok_bind]
  split
  · obtain ⟨ps, hps⟩ := hInline
    rw [hps, ok_bind]
    exact exists_parameterOf_ok h kind ps
  · exact exists_parameterOf_ok h kind []
termination_by schema.depth

/-- A property of a referenced object has a parameter, whether it is a schema or not. -/
theorem exists_flattenedParameter_ok (parent name : Value) {schema : Value} (h : WellFormed schema) :
    ∃ p, (flattenedParameter parent name schema).outcome = .ok p := by
  obtain ⟨values, hValues⟩ := exists_enumValues?_ok schema h
  unfold flattenedParameter
  refine Journal.exists_bind_ok (exists_kindOf_ok schema h) ?_
  intro kind _
  rw [hValues]
  exact ⟨_, rfl⟩

theorem exists_expansion_ok {required : List Value} {property : Value × Value}
    (h : WellFormed property.2) (hMapping : property.2.isMapping = true) :
    ∃ ps, expansion required property = .ok ps := by
  obtain ⟨properties, hProperties, hEach⟩ := exists_mergedProperties_ok h hMapping
  obtain ⟨p, hp⟩ :=
    exists_propertyParameter_ok property.1 property.2 (required.contains property.1) h hMapping
  have hOwn : ∃ ps, (return [← (propertyParameter property.1 property.2
      (required.contains property.1)).outcome] : Except Fault (List Parameter)) = .ok ps :=
    ⟨[p], by rw [hp]; rfl⟩
  rw [expansion, flattenedProperties?_eq, hProperties]
  split
  · cases properties with
    | nil => exact hOwn
    | cons first rest =>
      exact exists_mapM_ok fun child hChild =>
        exists_flattenedParameter_ok property.1 child.1 (hEach child hChild)
  · exact hOwn

theorem exists_flattenedBody_ok {schema : Value} (h : WellFormed schema)
    (hMapping : schema.isMapping = true) : ∃ ps, flattenedBody schema = .ok ps := by
  obtain ⟨object, hObject, hObjectMapping, hObjectFits⟩ := exists_merge_ok schema h hMapping
  obtain ⟨names, hNames⟩ := exists_requiredNames_ok hObjectFits hObjectMapping
  obtain ⟨properties, hProperties, hEach⟩ := exists_mergedProperties_ok h hMapping
  obtain ⟨expansions, hExpansions⟩ : ∃ expansions,
      (sendables properties).mapM (expansion names) = .ok expansions := by
    refine exists_mapM_ok ?_
    intro e he
    obtain ⟨hMem, hSendable⟩ := mem_sendables.mp he
    exact exists_expansion_ok (hEach e hMem) (isMapping_of_isSendable hSendable)
  rw [flattenedBody, hObject, ok_bind, hNames, ok_bind, hProperties, ok_bind, hExpansions]
  exact ⟨_, rfl⟩

/-- **Well-formed bodies.** The well-formed schema of a body has body parameters. -/
theorem exists_bodyParameters_ok {schema : Value} (location : String) (h : WellFormed schema)
    (hMapping : schema.isMapping = true) :
    ∃ ps, (bodyParameters schema location).outcome = .ok ps := by
  obtain ⟨kind, hKind⟩ := exists_kindOf_ok schema h
  rw [outcome_bodyParameters]
  split
  · exact ⟨[], rfl⟩
  · rw [hKind, ok_bind]
    split
    · exact ⟨[listBody], rfl⟩
    · exact exists_flattenedBody_ok h hMapping

end ClientGen.Schema
