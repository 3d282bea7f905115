import ClientGen.Proofs.Schema.Flattening

/-!
# Read-only properties

Properties that are marked read-only are for responses. They are left out where the
properties of a body and those of inline objects are read, at any depth. The properties of a
referenced object are an exception: flattening looks at the mark of the property that refers
to the object and not at theirs.

Main results:

* `standsFor_of_propertyParameter_ok` — inside the parameter for a property no read-only
  property has one.
* `origins_of_bodyParameters` — what each parameter of a body is the parameter for.
* `readOnly_customerBody` — a read-only property of a referenced object is sent.
-/

namespace ClientGen.Schema

open ClientGen.Api ClientGen.Document ClientGen.Document.Value

/-- The parameter stands for the property, and the parameters inside it stand for those of the
merged properties that are schemas and not read-only. -/
inductive StandsFor : Value × Value → Parameter → Prop
  | plain {property : Value × Value} {p : Parameter} (hName : p.name = property.1)
      (hNone : p.properties = []) : StandsFor property p
  | inline {property : Value × Value} {p : Parameter} {properties : Entries}
      (hName : p.name = property.1) (hMerged : mergedProperties property.2 = .ok properties)
      (hInside : List.Forall₂ StandsFor (sendables properties) p.properties) : StandsFor property p

/-- The parameter for a property stands for it. -/
theorem standsFor_of_propertyParameter_ok (name schema : Value) {required : Bool} {p : Parameter}
    (h : (propertyParameter name schema required).outcome = .ok p) : StandsFor (name, schema) p := by
  have hSplit := h
  rw [outcome_propertyParameter] at hSplit
  obtain ⟨kind, -, hSplit⟩ := exists_of_bind_ok hSplit
  obtain ⟨inside, hInside, hSplit⟩ := exists_of_bind_ok hSplit
  obtain ⟨nullable, -, hSplit⟩ := exists_of_bind_ok hSplit
  obtain ⟨values, -, hSplit⟩ := exists_of_bind_ok hSplit
  cases hSplit
  split at hInside
  · obtain ⟨object, -, hInside⟩ := exists_of_bind_ok hInside
    obtain ⟨names, -, hInside⟩ := exists_of_bind_ok hInside
    obtain ⟨properties, hMerged, hInside⟩ := exists_of_bind_ok hInside
    refine .inline rfl hMerged ?_
    have hDeeper : ∀ e ∈ sendables properties, e.2.depth < schema.depth :=
      fun e he => mergedProperties_depth hMerged e (mem_sendables.mp he).1
    refine ((List.forall₂_and_left _ _).mpr ⟨hDeeper, mapM_eq_ok_iff.mp hInside⟩).imp ?_
    rintro e q ⟨hDepth, hq⟩
    exact standsFor_of_propertyParameter_ok e.1 e.2 hq
  · cases hInside
    exact .plain rfl rfl
termination_by schema.depth

-- ---------------------------------------------------------------------------
-- Bodies
-- ---------------------------------------------------------------------------

/-- The parameter was made of a property: it stands for the property itself, or for one of the
object that the property refers to. -/
def MadeFrom (property : Value × Value) (p : Parameter) : Prop :=
  StandsFor property p ∨
    ∃ children, RefersTo property.2 children ∧ ∃ child ∈ children, IsChild property.1 child p

theorem Expands.madeFrom {required : List Value} {property : Value × Value} {ps : List Parameter}
    (h : Expands required property ps) : ∀ p ∈ ps, MadeFrom property p := by
  intro p hp
  cases h with
  | children hRefers hEach =>
    obtain ⟨child, hMem, hChild⟩ := exists_left_of_forall₂ hEach p hp
    exact Or.inr ⟨_, hRefers, child, hMem, hChild⟩
  | whole _ hWhole =>
    rw [List.mem_singleton.mp hp]
    exact Or.inl (standsFor_of_propertyParameter_ok _ _ hWhole.read)

/-- **Where body parameters come from.** Unless the body is a reference or a list, each of its
parameters is made of a merged property that is not read-only. It stands for the property, with
parameters inside for those of its properties that are not read-only, or for one of the
properties of the object that the property refers to; and of these each is sent, whether it is
read-only or not. -/
theorem origins_of_bodyParameters {schema : Value} {location : String} {ps : List Parameter}
    (h : (bodyParameters schema location).outcome = .ok ps) :
    isOpen schema = true ∧ ps = [] ∨ IsListBody schema ∧ ps = [listBody] ∨
      ∃ properties, mergedProperties schema = .ok properties ∧
        (∀ p ∈ ps, ∃ property ∈ properties, isReadOnly property.2 = false ∧ MadeFrom property p) ∧
        ∀ property ∈ properties, property.2.isMapping = true → isReadOnly property.2 = false →
          ∀ children, RefersTo property.2 children → ∀ child ∈ children,
            ∃ p ∈ ps, p.name = .str (property.1.display ++ "_" ++ child.1.display) := by
  rcases bodyParameters_cases h with hOpen | hList | ⟨-, -, required, properties, expansions, hBody⟩
  · exact Or.inl hOpen
  · exact Or.inr (Or.inl hList)
  · refine Or.inr (Or.inr ⟨properties, hBody.merged, ?_, ?_⟩)
    · intro p hp
      rw [hBody.firsts] at hp
      obtain ⟨expanded, hExpanded, hp⟩ := List.mem_flatten.mp ((firstsBy_sublist _).subset hp)
      obtain ⟨property, hProperty, hExpands⟩ := exists_left_of_forall₂ hBody.each expanded hExpanded
      obtain ⟨hMem, hSendable⟩ := mem_sendables.mp hProperty
      exact ⟨property, hMem, by simpa using (Bool.and_eq_true_iff.mp hSendable).2, hExpands.madeFrom p hp⟩
    · intro property hMem hMapping hWritable children hRefers child hChild
      have hSendable : isSendable property.2 = true := by rw [isSendable, hMapping, hWritable]; rfl
      obtain ⟨expanded, hExpanded, hExpands⟩ :=
        exists_right_of_forall₂ hBody.each property (mem_sendables.mpr ⟨hMem, hSendable⟩)
      obtain ⟨q, hq, hIsChild⟩ :=
        exists_right_of_forall₂ (hExpands.eq_children hRefers) child hChild
      exact hBody.named (List.mem_flatten.mpr ⟨expanded, hExpanded, hq⟩) hIsChild.name

/-- A property that only responses have. -/
def idProperty : Value := .map [(.str "type", .str "integer"), (.str "readOnly", .bool true)]

/-- The properties of an address. -/
def addressProperties : Entries :=
  [(.str "id", idProperty), (.str "city", .map [(.str "type", .str "string")])]

/-- A property that refers to the schema of addresses. -/
def addressProperty : Value :=
  .map [(.str "type", .str "object"), (.str "properties", .map addressProperties),
    (.str originKey, .str "#/components/schemas/Address")]

/-- The body of a request that creates a customer. -/
def customerBody : Value :=
  .map [(.str "type", .str "object"),
    (.str "properties", .map [(.str "address", addressProperty)])]

theorem refersTo_addressProperty : RefersTo addressProperty addressProperties where
  reference := by decide +kernel
  closed := by decide +kernel
  merged := by
    apply mergedProperties_of_plain <;> simp [addressProperty, field?, Dictionary.get?, originKey]
  nonempty := List.cons_ne_nil _ _

theorem mergedProperties_customerBody :
    mergedProperties customerBody = .ok [(.str "address", addressProperty)] := by
  apply mergedProperties_of_plain <;> simp [customerBody, field?, Dictionary.get?]

theorem exists_customerParameters :
    ∃ ps, (bodyParameters customerBody "POST /customers").outcome = .ok ps :=
  exists_bodyParameters_ok _ (by decide +kernel) rfl

theorem isOpen_customerBody : isOpen customerBody = false := by decide +kernel

theorem not_isListBody_customerBody : ¬ IsListBody customerBody := by
  rintro ⟨-, hNone⟩
  simp [customerBody, field?, Dictionary.get?] at hNone

/-- The body is neither a reference nor a list, so each property of the address is sent. -/
theorem origins_of_customerBody :
    ∃ ps, (bodyParameters customerBody "POST /customers").outcome = .ok ps ∧
      ∀ child ∈ addressProperties, ∃ p ∈ ps, p.name = .str ("address_" ++ child.1.display) := by
  obtain ⟨ps, hps⟩ := exists_customerParameters
  refine ⟨ps, hps, ?_⟩
  rcases origins_of_bodyParameters hps with ⟨hOpen, -⟩ | ⟨hList, -⟩ | ⟨properties, hMerged, -, hSent⟩
  · rw [isOpen_customerBody] at hOpen
    cases hOpen
  · exact absurd hList not_isListBody_customerBody
  · cases hMerged.symm.trans mergedProperties_customerBody
    exact hSent _ List.mem_cons_self rfl (by decide +kernel) addressProperties refersTo_addressProperty

/-- **A read-only property is sent.** The identifier of the address is read-only, and the customer has
a parameter that is made of it. -/
theorem readOnly_customerBody :
    isReadOnly idProperty = true ∧ (.str "id", idProperty) ∈ addressProperties ∧
      ∃ ps, (bodyParameters customerBody "POST /customers").outcome = .ok ps ∧
        ∃ p ∈ ps, IsChild (.str "address") (.str "id", idProperty) p := by
  refine ⟨by decide +kernel, List.mem_cons_self, ?_⟩
  obtain ⟨ps, hps⟩ := exists_customerParameters
  refine ⟨ps, hps, ?_⟩
  rcases bodyParameters_cases hps with ⟨hOpen, -⟩ | ⟨hList, -⟩ | ⟨-, -, required, properties, expansions, hBody⟩
  · rw [isOpen_customerBody] at hOpen
    cases hOpen
  · exact absurd hList not_isListBody_customerBody
  · cases hBody.merged.symm.trans mergedProperties_customerBody
    have hSendable : sendables [(.str "address", addressProperty)] = [(.str "address", addressProperty)] :=
      List.filter_eq_self.mpr (by decide +kernel)
    have hEach := hBody.each
    rw [hSendable] at hEach
    -- the address is the only property, so its first child is the first parameter
    obtain ⟨expanded, _, hExpands, hRest, rfl⟩ := List.forall₂_cons_left_iff.mp hEach
    cases hRest
    obtain ⟨p, others, hChild, -, rfl⟩ :=
      List.forall₂_cons_left_iff.mp (hExpands.eq_children refersTo_addressProperty)
    refine ⟨p, ?_, hChild⟩
    rw [hBody.firsts, List.flatten_cons, List.cons_append, firstsBy_cons]
    exact List.mem_cons_self

end ClientGen.Schema
