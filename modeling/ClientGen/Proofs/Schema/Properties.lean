import ClientGen.Proofs.FirstOccurrences
import ClientGen.Proofs.Schema.Composition

/-!
# What the readers of properties yield

The parameter for a property is read by a recursion that carries a bound on depths, and the
parameters of a body are gathered in a list that grows property by property. This module
states what the two yield without either: a property keeps the parameters for those of its
merged properties that requests can send, and a body has the first parameters, by name, of
the expansions of its properties.

Main results:

* `outcome_propertyParameter` — the parameter for a property.
* `outcome_bodyParameters` — the parameters of a body.
-/

namespace ClientGen.Schema

open ClientGen.Api ClientGen.Document ClientGen.Document.Value

-- ---------------------------------------------------------------------------
-- Merged properties
-- ---------------------------------------------------------------------------

/-- The properties that requests can send: those that are mappings and not marked as read-only. -/
def sendables (properties : Entries) : Entries :=
  properties.filter fun e => e.2.isMapping && !((e.2.field? "readOnly").map isTruthy).getD false

/-- These are the properties that pass the check of the parser. -/
theorem sendables_cons (e : Value × Value) (rest : Entries) :
    sendables (e :: rest) = if isSendable e.2 then e :: sendables rest else sendables rest :=
  List.filter_cons

theorem mem_sendables {properties : Entries} {e : Value × Value} :
    e ∈ sendables properties ↔ e ∈ properties ∧ isSendable e.2 = true := List.mem_filter

/-- Only an object states required names. -/
theorem isMapping_of_requiredNames {object : Value} {names : List Value}
    (h : requiredNames object = .ok names) : object.isMapping = true := by
  cases object with
  | map _ => rfl
  | _ => cases h

/-- The merged properties, read off the merged schema. -/
theorem mergedProperties_of_merge {schema object : Value} (hMerged : merge schema = .ok object)
    (hMapping : object.isMapping = true) :
    mergedProperties schema = (orElse (object.field? "properties") .emptyMap).entries := by
  rw [mergedProperties, hMerged, ok_bind, member_of_isMapping hMapping, ok_bind]

/-- A schema without members has the properties that it states. -/
theorem mergedProperties_of_plain {schema : Value} {entries : Entries}
    (hPlain : schema.field? "allOf" = none) (hStated : schema.field? "properties" = some (.map entries)) :
    mergedProperties schema = .ok entries := by
  have hMapping := isMapping_of_field? hStated
  rw [mergedProperties_of_merge (merge_of_plain hMapping hPlain) hMapping, hStated, orElse_map,
    Value.entries]

/-- Merged properties lie deeper than the schema. -/
theorem mergedProperties_depth {schema : Value} {properties : Entries}
    (h : mergedProperties schema = .ok properties) : ∀ e ∈ properties, e.2.depth < schema.depth := by
  obtain ⟨object, hMerged, -, hProperties⟩ := exists_of_mergedProperties_ok h
  cases hStated : object.field? "properties" with
  | none =>
    rw [hStated] at hProperties
    cases hProperties
    simp
  | some stated =>
    rw [hStated, orElse_some] at hProperties
    split at hProperties
    · exact merge_depth schema hMerged stated hStated properties (by rw [hProperties]; rfl)
    · cases hProperties
      simp

/-- What takes the place of a property are the merged properties of the object that it refers
to, if it has some. -/
theorem flattenedProperties?_eq (schema : Value) :
    flattenedProperties? schema =
      if isReference schema && !isOpen schema then
        (mergedProperties schema).map fun children =>
          if children.isEmpty then none else some children
      else .ok none := by
  unfold flattenedProperties? mergedProperties
  split
  · cases merge schema with
    | error _ => rfl
    | ok object =>
      rw [ok_bind, ok_bind]
      cases object.member "properties" with
      | error _ => rfl
      | ok stated =>
        rw [ok_bind, ok_bind]
        cases stated with
        | none => rfl
        | some properties =>
          -- what counts as false has no entries to be read, and an empty mapping has none
          rw [orElse_some]
          dsimp only
          split
          · rename_i hTruthy
            cases properties with
            | map entries =>
              simp only [isTruthy, Bool.not_eq_true'] at hTruthy
              simp only [Value.entries, Except.map, hTruthy]
              rfl
            | _ => rfl
          · rfl
  · rfl

-- ---------------------------------------------------------------------------
-- Parameters for properties
-- ---------------------------------------------------------------------------

/-- The parameters for the properties that requests can send. -/
def sentParameters (required : List Value) (properties : Entries) : Except Fault (List Parameter) :=
  (sendables properties).mapM fun e => (propertyParameter e.1 e.2 (required.contains e.1)).outcome

theorem outcome_nestedParameters {required : List Value} {bound : Nat} {entries : Entries}
    {inside : ∀ e ∈ entries, e.2.depth < bound} :
    (nestedParameters required bound entries inside).outcome = sentParameters required entries := by
  induction entries with
  | nil =>
    rw [nestedParameters]
    rfl
  | cons e rest ih =>
    obtain ⟨name, schema⟩ := e
    rw [nestedParameters, sentParameters, sendables_cons]
    split
    · rw [List.mapM_cons, ← sentParameters]
      simp only [Journal.outcome_bind, ih, Journal.outcome_pure]
      rfl
    · exact ih

/-- The parameters that an inline object keeps. -/
def inlineParameters (schema : Value) : Except Fault (List Parameter) := do
  let required ← requiredNames (← merge schema)
  sentParameters required (← mergedProperties schema)

/-- The parameter of a kind that keeps the given properties. -/
def parameterOf (name schema : Value) (required : Bool) (kind : Kind) (properties : List Parameter) :
    Except Fault Parameter := do
  let nullable ← (if required then isNullable schema else .ok true : Except Fault Bool)
  let values ← enumValues? schema
  return {
    kind := kind, nullable := nullable, name := name, properties := properties
    description := cleanDescription? (schema.field? "description")
    enumValues := values }

/-- **The parameter for a property.** An inline object keeps the parameters for its merged
properties that requests can send. -/
theorem outcome_propertyParameter (name schema : Value) (required : Bool) :
    (propertyParameter name schema required).outcome = (do
      let kind ← (kindOf schema).outcome
      let properties ← (if kind = .mapping && !isReference schema then inlineParameters schema
        else .ok [] : Except Fault (List Parameter))
      parameterOf name schema required kind properties) := by
  rw [propertyParameter, Journal.outcome_bind]
  congr 1
  funext kind
  -- the last steps stand behind each of the ways to the properties
  have hLast : ∀ properties, (if required = true then do
        let nullable ← (isNullable schema : Journal Bool)
        let values ← (enumValues? schema : Journal _)
        pure ⟨kind, nullable, name, cleanDescription? (schema.field? "description"), values,
          properties, none⟩
      else do
        let nullable ← pure true
        let values ← (enumValues? schema : Journal _)
        pure ⟨kind, nullable, name, cleanDescription? (schema.field? "description"), values,
          properties, none⟩ : Journal Parameter).outcome =
      parameterOf name schema required kind properties := by
    intro properties
    rw [Journal.outcome_ite, parameterOf]
    simp only [Journal.outcome_bind, Journal.outcome_lift, Journal.outcome_pure]
    split <;> rfl
  dsimp only
  by_cases hInline : (decide (kind = .mapping) && !isReference schema) = true
  · rw [if_pos hInline, if_pos hInline]
    split
    · rename_i fault hFault
      rw [inlineParameters, hFault]
      rfl
    · rename_i object hMerged
      have hRead : inlineParameters schema = (do
          let required ← requiredNames object
          sentParameters required (← mergedProperties schema)) := by
        rw [inlineParameters, hMerged, ok_bind]
      rw [hRead, Journal.outcome_bind, Journal.outcome_lift]
      cases hNames : requiredNames object with
      | error _ => rfl
      | ok names =>
        rw [ok_bind, ok_bind, mergedProperties_of_merge hMerged (isMapping_of_requiredNames hNames)]
        split
        · rename_i entries hStated
          rw [Journal.outcome_bind, outcome_nestedParameters, hStated, orElse_map, Value.entries,
            ok_bind]
          exact congrArg (_ >>= ·) (funext hLast)
        · rename_i other hNoMap hStated
          rw [hStated, orElse_some]
          split
          · cases other with
            | map entries => exact absurd rfl (hNoMap entries)
            | _ => rfl
          · exact hLast []
        · rename_i hStated
          rw [hStated]
          exact hLast []
  · rw [if_neg hInline, if_neg hInline]
    exact hLast []

-- ---------------------------------------------------------------------------
-- Bodies
-- ---------------------------------------------------------------------------

theorem outcome_addParameter (location : String) (params : List Parameter) (p : Parameter) :
    (addParameter location params p).outcome = .ok (addNew Parameter.name params p) := by
  unfold addParameter addNew Parameter.named
  split <;> rfl

/-- The parameters that a property is sent as: those for the properties of the object that it
refers to, or its own. -/
def expansion (required : List Value) (property : Value × Value) : Except Fault (List Parameter) := do
  match ← flattenedProperties? property.2 with
  | some children =>
    children.mapM fun child => (flattenedParameter property.1 child.1 child.2).outcome
  | none =>
    return [← (propertyParameter property.1 property.2 (required.contains property.1)).outcome]

/-- A property that requests can send adds its expansion, without the names that are taken. -/
theorem outcome_addProperty {location : String} {required : List Value} {params : List Parameter}
    {property : Value × Value} (hSendable : isSendable property.2 = true) :
    (addProperty location required params property).outcome =
      (expansion required property).map (List.foldl (addNew Parameter.name) params) := by
  obtain ⟨name, schema⟩ := property
  unfold addProperty expansion
  dsimp only at hSendable ⊢
  rw [hSendable, Bool.not_true, if_neg Bool.false_ne_true, Journal.outcome_bind, Journal.outcome_lift]
  cases flattenedProperties? schema with
  | error _ => rfl
  | ok flattened =>
    rw [ok_bind, ok_bind]
    cases flattened with
    | some children =>
      dsimp only
      rw [Journal.outcome_foldlM, ← foldlM_map]
      congr 1
      funext params child
      rw [Journal.outcome_bind]
      cases (flattenedParameter name child.1 child.2).outcome with
      | error _ => rfl
      | ok p => exact outcome_addParameter location params p
    | none =>
      dsimp only
      rw [Journal.outcome_bind]
      cases (propertyParameter name schema (required.contains name)).outcome with
      | error _ => rfl
      | ok p => exact outcome_addParameter location params p

theorem outcome_addProperties (location : String) (required : List Value) (properties : Entries)
    (params : List Parameter) :
    (properties.foldlM (addProperty location required) params).outcome =
      ((sendables properties).mapM (expansion required)).map fun expansions =>
        expansions.flatten.foldl (addNew Parameter.name) params := by
  have hSteps : (properties.foldlM (addProperty location required) params).outcome =
      (sendables properties).foldlM (fun params property =>
        (expansion required property).map (List.foldl (addNew Parameter.name) params)) params := by
    rw [Journal.outcome_foldlM]
    induction properties generalizing params with
    | nil => rfl
    | cons property rest ih =>
      rw [List.foldlM_cons, sendables_cons]
      split
      · rename_i hSendable
        rw [outcome_addProperty hSendable, List.foldlM_cons]
        exact congrArg (_ >>= ·) (funext ih)
      · rename_i hOther
        unfold addProperty
        dsimp only
        rw [if_pos (by simpa using hOther)]
        exact ih params
  rw [hSteps, foldlM_map]
  simp only [List.foldl_flatten]

/-- The first parameters, by name, of the expansions of those merged properties that requests can
send. -/
def flattenedBody (schema : Value) : Except Fault (List Parameter) := do
  let required ← requiredNames (← merge schema)
  let expansions ← (sendables (← mergedProperties schema)).mapM (expansion required)
  return firstsBy Parameter.name expansions.flatten

/-- **The parameters of a body.** A reference that was left in place has none, and a list is sent as a
whole. Any other body is flattened. -/
theorem outcome_bodyParameters (schema : Value) (location : String) :
    (bodyParameters schema location).outcome =
      if isOpen schema then .ok [] else (do
        let kind ← (kindOf schema).outcome
        if kind = .sequence && (schema.field? "properties").isNone then return [listBody]
        else flattenedBody schema) := by
  unfold bodyParameters isOpen
  cases openRef? schema with
  | some ref => rfl
  | none =>
    dsimp only
    rw [Journal.outcome_bind, Option.isSome_none, if_neg Bool.false_ne_true]
    refine congrArg (_ >>= ·) (funext fun kind => ?_)
    split
    · rfl
    · rw [Journal.outcome_bind, Journal.outcome_lift, flattenedBody, mergedProperties]
      cases merge schema with
      | error _ => rfl
      | ok object =>
        rw [ok_bind, ok_bind, Journal.outcome_bind, Journal.outcome_lift]
        cases requiredNames object with
        | error _ => rfl
        | ok required =>
          rw [ok_bind, ok_bind, ok_bind]
          simp only [Journal.outcome_bind, Journal.outcome_lift, outcome_addProperties, bind_assoc]
          refine congrArg (_ >>= ·) (funext fun stated => ?_)
          refine congrArg (_ >>= ·) (funext fun properties => ?_)
          cases (sendables properties).mapM (expansion required) with
          | error _ => rfl
          | ok expansions => exact congrArg Except.ok (foldl_firstsBy [] expansions.flatten)

end ClientGen.Schema
