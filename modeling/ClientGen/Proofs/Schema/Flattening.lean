import ClientGen.Proofs.Schema.WellFormed

/-!
# Flattened bodies

A body is sent as a flat list of parameters. A property that refers to an object schema gives
way to the properties of that schema, one level deep, each under a joint name; any other
property is sent as it is. Joint names and plain ones may meet, and then the first parameter
with the name is the one that is sent.

Main results:

* `expands_of_expansion_ok` — the two ways in which a property is sent.
* `flattened_bodyParameters` — the parameters of a body are the first ones, by name, of the
  expansions of its properties.
-/

namespace ClientGen.Schema

open ClientGen.Api ClientGen.Document ClientGen.Document.Value

-- ---------------------------------------------------------------------------
-- Expansions
-- ---------------------------------------------------------------------------

/-- The schema was put in the place of a reference to a component schema, and merged it has
properties. -/
structure RefersTo (schema : Value) (children : Entries) : Prop where
  reference : isReference schema = true
  closed    : isOpen schema = false
  merged    : mergedProperties schema = .ok children
  nonempty  : children ≠ []

/-- The parameter for a property of a referenced object: it may be left out and keeps nothing
of an object further down. -/
structure IsChild (parent : Value) (child : Value × Value) (p : Parameter) : Prop where
  name        : p.name = .str (parent.display ++ "_" ++ child.1.display)
  nullable    : p.nullable = true
  parent      : p.parent = some parent
  properties  : p.properties = []
  kind        : (kindOf child.2).outcome = .ok p.kind
  enumValues  : enumValues? child.2 = .ok p.enumValues
  description : p.description = cleanDescription? (child.2.field? "description")

/-- The parameter for a property that is sent under its own name. -/
structure IsWhole (required : List Value) (property : Value × Value) (p : Parameter) : Prop where
  name   : p.name = property.1
  parent : p.parent = none
  read   : (propertyParameter property.1 property.2 (required.contains property.1)).outcome = .ok p

/-- The parameters that a property is sent as. -/
inductive Expands (required : List Value) (property : Value × Value) : List Parameter → Prop
  | children {children : Entries} {ps : List Parameter} (hRefers : RefersTo property.2 children)
      (hEach : List.Forall₂ (IsChild property.1) children ps) : Expands required property ps
  | whole {p : Parameter} (hOther : ∀ children, ¬ RefersTo property.2 children)
      (hWhole : IsWhole required property p) : Expands required property [p]

theorem isChild_of_flattenedParameter_ok {parent : Value} {child : Value × Value} {p : Parameter}
    (h : (flattenedParameter parent child.1 child.2).outcome = .ok p) : IsChild parent child p := by
  obtain ⟨kind, hKind, h⟩ := Journal.exists_of_bind_ok h
  obtain ⟨values, hValues, h⟩ := Journal.exists_of_bind_ok h
  cases h
  exact ⟨rfl, rfl, rfl, rfl, hKind, hValues, rfl⟩

theorem isWhole_of_propertyParameter_ok {required : List Value} {property : Value × Value}
    {p : Parameter}
    (h : (propertyParameter property.1 property.2 (required.contains property.1)).outcome = .ok p) :
    IsWhole required property p := by
  have hRead := h
  rw [outcome_propertyParameter] at h
  obtain ⟨kind, -, h⟩ := exists_of_bind_ok h
  obtain ⟨properties, -, h⟩ := exists_of_bind_ok h
  obtain ⟨nullable, -, h⟩ := exists_of_bind_ok h
  obtain ⟨values, -, h⟩ := exists_of_bind_ok h
  cases h
  exact ⟨rfl, rfl, hRead⟩

/-- A property is sent in one of the two ways. -/
theorem expands_of_expansion_ok {required : List Value} {property : Value × Value}
    {ps : List Parameter} (h : expansion required property = .ok ps) : Expands required property ps := by
  unfold expansion at h
  obtain ⟨flattened, hFlattened, h⟩ := exists_of_bind_ok h
  rw [flattenedProperties?_eq] at hFlattened
  cases flattened with
  | some children =>
    have hRefers : RefersTo property.2 children := by
      split at hFlattened
      · rename_i hReference
        obtain ⟨hRef, hClosed⟩ := Bool.and_eq_true_iff.mp hReference
        obtain ⟨merged, hMerged, hSame⟩ := exists_of_map_ok hFlattened
        split at hSame
        · cases hSame
        · rename_i hSome
          cases hSame
          exact ⟨hRef, by simpa using hClosed, hMerged, by simpa using hSome⟩
      · cases hFlattened
    refine .children hRefers ((mapM_eq_ok_iff.mp h).imp ?_)
    intro child p hChild
    exact isChild_of_flattenedParameter_ok hChild
  | none =>
    obtain ⟨p, hp, h⟩ := exists_of_bind_ok h
    cases h
    refine .whole ?_ (isWhole_of_propertyParameter_ok hp)
    intro children hRefers
    rw [if_pos (by simp [hRefers.reference, hRefers.closed]), hRefers.merged] at hFlattened
    cases children with
    | nil => exact hRefers.nonempty rfl
    | cons _ _ => cases hFlattened

/-- A property that refers to an object is sent as the properties of the object, all of them. -/
theorem Expands.eq_children {required : List Value} {property : Value × Value} {ps : List Parameter}
    {children : Entries} (h : Expands required property ps) (hRefers : RefersTo property.2 children) :
    List.Forall₂ (IsChild property.1) children ps := by
  cases h with
  | children hOther hEach =>
    cases hOther.merged.symm.trans hRefers.merged
    exact hEach
  | whole hNot _ => exact absurd hRefers (hNot children)

/-- Its parameters have joint names. -/
theorem Expands.names_of_refersTo {required : List Value} {property : Value × Value}
    {ps : List Parameter} {children : Entries} (h : Expands required property ps)
    (hRefers : RefersTo property.2 children) : ps.map Parameter.name =
      children.map fun child => .str (property.1.display ++ "_" ++ child.1.display) := by
  have hEach := (h.eq_children hRefers).imp fun _ _ hChild => hChild.name
  rw [← List.forall₂_eq_eq_eq, List.forall₂_map_left_iff, List.forall₂_map_right_iff]
  exact hEach.flip

/-- A property that refers to none is sent under its own name. -/
theorem Expands.names_of_not_reference {required : List Value} {property : Value × Value}
    {ps : List Parameter} (h : Expands required property ps)
    (hOther : isReference property.2 = false) : ps.map Parameter.name = [property.1] := by
  cases h with
  | children hRefers _ =>
    rw [hRefers.reference] at hOther
    cases hOther
  | whole _ hWhole => rw [List.map_singleton, hWhole.name]

-- ---------------------------------------------------------------------------
-- Bodies
-- ---------------------------------------------------------------------------

/-- The schema describes a list that is sent as a whole. -/
def IsListBody (schema : Value) : Prop :=
  (kindOf schema).outcome = .ok .sequence ∧ schema.field? "properties" = none

/-- The parameters are those of a body with the schema: in order, the first ones by name of the
expansions of the merged properties that requests can send. -/
structure IsFlattened (schema : Value) (ps : List Parameter) (required : List Value)
    (properties : Entries) (expansions : List (List Parameter)) : Prop where
  names  : (do requiredNames (← merge schema)) = .ok required
  merged : mergedProperties schema = .ok properties
  each   : List.Forall₂ (Expands required) (sendables properties) expansions
  firsts : ps = firstsBy Parameter.name expansions.flatten

section Flattened

variable {schema : Value} {ps : List Parameter} {required : List Value} {properties : Entries}
  {expansions : List (List Parameter)} (h : IsFlattened schema ps required properties expansions)
include h

/-- No name is sent twice. -/
theorem IsFlattened.siblingsApart : SiblingsApart ps := by
  rw [h.firsts]
  exact pairwise_firstsBy _

/-- The names that are sent are the first ones of the expansions. -/
theorem IsFlattened.firstNames :
    ps.map Parameter.name = firstsBy id (expansions.map (List.map Parameter.name)).flatten := by
  rw [h.firsts, map_firstsBy, List.map_flatten]

/-- A text that is the name of an expanded parameter is sent. -/
theorem IsFlattened.named {q : Parameter} (hq : q ∈ expansions.flatten) {name : String}
    (hName : q.name = .str name) : ∃ p ∈ ps, p.name = .str name := by
  have hAny : expansions.flatten.any (·.name == .str name) = true := by
    rw [List.any_eq_true]
    exact ⟨q, hq, beq_str.mpr hName⟩
  rw [← any_firstsBy (steady_str name).congr, ← h.firsts, List.any_eq_true] at hAny
  obtain ⟨p, hp, hSame⟩ := hAny
  exact ⟨p, hp, beq_str.mp hSame⟩

end Flattened

theorem isFlattened_of_flattenedBody_ok {schema : Value} {ps : List Parameter}
    (h : flattenedBody schema = .ok ps) :
    ∃ required properties expansions, IsFlattened schema ps required properties expansions := by
  obtain ⟨object, hMerged, h⟩ := exists_of_bind_ok h
  obtain ⟨required, hRequired, h⟩ := exists_of_bind_ok h
  obtain ⟨properties, hProperties, h⟩ := exists_of_bind_ok h
  obtain ⟨expansions, hExpansions, h⟩ := exists_of_bind_ok h
  cases h
  refine ⟨required, properties, expansions, by rw [hMerged, ok_bind, hRequired], hProperties, ?_, rfl⟩
  exact (mapM_eq_ok_iff.mp hExpansions).imp fun _ _ => expands_of_expansion_ok

/-- A body is a reference that was left in place, a list, or flattened. -/
theorem bodyParameters_cases {schema : Value} {location : String} {ps : List Parameter}
    (h : (bodyParameters schema location).outcome = .ok ps) :
    isOpen schema = true ∧ ps = [] ∨ IsListBody schema ∧ ps = [listBody] ∨
      isOpen schema = false ∧ ¬ IsListBody schema ∧
        ∃ required properties expansions, IsFlattened schema ps required properties expansions := by
  rw [outcome_bodyParameters] at h
  split at h
  · rename_i hOpen
    cases h
    exact Or.inl ⟨hOpen, rfl⟩
  · rename_i hClosed
    obtain ⟨kind, hKind, h⟩ := exists_of_bind_ok h
    split at h
    · rename_i hList
      cases h
      simp only [Bool.and_eq_true, decide_eq_true_eq, Option.isNone_iff_eq_none] at hList
      exact Or.inr (Or.inl ⟨⟨hList.1 ▸ hKind, hList.2⟩, rfl⟩)
    · rename_i hObject
      refine Or.inr (Or.inr ⟨Bool.not_eq_true _ ▸ hClosed, ?_, isFlattened_of_flattenedBody_ok h⟩)
      rintro ⟨hSequence, hNone⟩
      cases hKind.symm.trans hSequence
      exact hObject (by rw [hNone]; rfl)

/-- The parameters of a body have different names. -/
theorem siblingsApart_of_bodyParameters {schema : Value} {location : String} {ps : List Parameter}
    (h : (bodyParameters schema location).outcome = .ok ps) : SiblingsApart ps := by
  rcases bodyParameters_cases h with ⟨-, rfl⟩ | ⟨-, rfl⟩ | ⟨-, -, _, _, _, hBody⟩
  · exact List.Pairwise.nil
  · exact List.pairwise_singleton _ _
  · exact hBody.siblingsApart

/-- **Flattening is complete and unambiguous.** The schema of a body that is neither a reference
nor a list has body parameters if it is well formed. They are the first ones, by name, of the
expansions of its properties; so their names differ, and each text that an expansion names is
sent. -/
theorem flattened_bodyParameters (schema : Value) (location : String) (hClosed : isOpen schema = false)
    (hObject : ¬ IsListBody schema) :
    (WellFormed schema → schema.isMapping = true →
      ∃ ps, (bodyParameters schema location).outcome = .ok ps) ∧
    ∀ ps, (bodyParameters schema location).outcome = .ok ps →
      ∃ required properties expansions, IsFlattened schema ps required properties expansions ∧
        SiblingsApart ps ∧
        ∀ q ∈ expansions.flatten, ∀ name, q.name = .str name → ∃ p ∈ ps, p.name = .str name := by
  refine ⟨exists_bodyParameters_ok location, ?_⟩
  intro ps h
  rcases bodyParameters_cases h with ⟨hOpen, -⟩ | ⟨hList, -⟩ | ⟨-, -, required, properties, expansions, hBody⟩
  · rw [hClosed] at hOpen
    cases hOpen
  · exact absurd hList hObject
  · exact ⟨required, properties, expansions, hBody, hBody.siblingsApart,
      fun q hq name hName => hBody.named hq hName⟩

/-- The schema of texts. -/
def textSchema : Value := .map [(.str "type", .str "string")]

/-- A property that refers to the schema of an address. -/
def homeProperty : Value :=
  .map [(.str originKey, .str "#/components/schemas/Address"),
    (.str "properties", .map [(.str "city", textSchema), (.str "zip", textSchema)])]

/-- What only responses have. -/
def sinceProperty : Value := .map [(.str "type", .str "string"), (.str "readOnly", .bool true)]

/-- A body that refers to an address and states one of the joint names itself. -/
def homeBody : Value :=
  .map [(.str "properties", .map [(.str "home", homeProperty), (.str "since", sinceProperty),
    (.str "home_city", textSchema), (.str "note", textSchema)])]

theorem refersTo_homeProperty :
    RefersTo homeProperty [(.str "city", textSchema), (.str "zip", textSchema)] where
  reference := by decide +kernel
  closed := by decide +kernel
  merged := by
    apply mergedProperties_of_plain <;> simp [homeProperty, field?, Dictionary.get?, originKey]
  nonempty := List.cons_ne_nil _ _

theorem names_of_homeBody {ps : List Parameter} {required : List Value} {properties : Entries}
    {expansions : List (List Parameter)}
    (h : IsFlattened homeBody ps required properties expansions) :
    ps.map Parameter.name = [.str "home_city", .str "home_zip", .str "note"] := by
  have hMerged : mergedProperties homeBody = .ok [(.str "home", homeProperty),
      (.str "since", sinceProperty), (.str "home_city", textSchema), (.str "note", textSchema)] := by
    apply mergedProperties_of_plain <;> simp [homeBody, field?, Dictionary.get?]
  have hProperties := h.merged
  rw [hMerged] at hProperties
  cases hProperties
  have hEach := h.each
  have hSendable : sendables [(.str "home", homeProperty), (.str "since", sinceProperty),
      (.str "home_city", textSchema), (.str "note", textSchema)] =
      [(.str "home", homeProperty), (.str "home_city", textSchema), (.str "note", textSchema)] := by
    have hHome : isSendable homeProperty = true := by decide +kernel
    have hSince : isSendable sinceProperty = false := by decide +kernel
    have hText : isSendable textSchema = true := by decide +kernel
    simp only [sendables_cons, hHome, hSince, hText]
    rfl
  rw [hSendable] at hEach
  obtain ⟨home, _, hHome, hOthers, rfl⟩ := List.forall₂_cons_left_iff.mp hEach
  obtain ⟨city, _, hCity, hLast, rfl⟩ := List.forall₂_cons_left_iff.mp hOthers
  obtain ⟨note, _, hNote, hNone, rfl⟩ := List.forall₂_cons_left_iff.mp hLast
  cases hNone
  have hOwn : isReference textSchema = false := by decide +kernel
  have hTexts : ∀ s t : String, (Value.str s == .str t) = (s == t) := by
    intro s t
    rw [Bool.eq_iff_iff, beq_str, beq_iff_eq, Value.str.injEq]
  rw [h.firstNames, List.map_cons, List.map_cons, List.map_cons, List.map_nil,
    hHome.names_of_refersTo refersTo_homeProperty, hCity.names_of_not_reference hOwn,
    hNote.names_of_not_reference hOwn]
  show firstsBy id [Value.str "home_city", .str "home_zip", .str "home_city", .str "note"] = _
  simp [firstsBy, List.eraseDupsBy_cons, hTexts]

/-- The joint name `home_city` is sent once and what is read-only is not. -/
theorem flattened_homeBody :
    isOpen homeBody = false ∧ ¬ IsListBody homeBody ∧ WellFormed homeBody ∧
      ∃ ps required properties expansions, (bodyParameters homeBody "POST /homes").outcome = .ok ps ∧
        IsFlattened homeBody ps required properties expansions ∧ SiblingsApart ps ∧
        ps.map Parameter.name = [.str "home_city", .str "home_zip", .str "note"] := by
  have hClosed : isOpen homeBody = false := by decide +kernel
  have hObject : ¬ IsListBody homeBody := by
    rintro ⟨-, hNone⟩
    have hSome : (homeBody.field? "properties").isSome = true := by decide +kernel
    rw [hNone] at hSome
    cases hSome
  have hWellFormed : WellFormed homeBody := by decide +kernel
  obtain ⟨hTotal, hEach⟩ := flattened_bodyParameters homeBody "POST /homes" hClosed hObject
  obtain ⟨ps, hps⟩ := hTotal hWellFormed rfl
  obtain ⟨required, properties, expansions, hBody, hApart, -⟩ := hEach ps hps
  exact ⟨hClosed, hObject, hWellFormed, ps, required, properties, expansions, hps, hBody, hApart,
    names_of_homeBody hBody⟩

end ClientGen.Schema
