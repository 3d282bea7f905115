import ClientGen.Proofs.Api.Normal
import ClientGen.Proofs.Document.Members
import ClientGen.Proofs.Document.Plain
import Mathlib

/-!
# Direct references in success responses

A success response that refers to a component schema is decoded into the class of that
schema, whatever the schema looks like. The reference is gone by the time responses are
looked at: its target stands in its place, under its siblings, and keeps the pointer as
its origin. A target may be a reference itself; then the origin of the outer one is put
over that of the inner one. And a reference that was left in place still says itself
where it points. So the name survives expansion in each of these cases, and it is asked
for before anything else of the response.

Main results:

* `Expands.referenceName?_eq` — what a reference is expanded to, if that is a mapping, names
  what the reference points to.
* `Expands.targetExpands` — if it is not a mapping, it is what the target is expanded to.
* `responds_of_successSchema` — an endpoint is made of each operation of a document,
  and its response is that of its success schema.
* `responds_of_named` / `responds_of_namedItems` — a success schema that names another one has
  its response, alone and as the items of a list.
* `response_of_reference` — direct references are recognised, alone and as items of a list.
-/

namespace ClientGen.Document

open ClientGen.Schema ClientGen.Document.Value

variable {document : Value}

-- ---------------------------------------------------------------------------
-- Names of expanded references
-- ---------------------------------------------------------------------------

theorem pointedName?_append (name : String) : pointedName? (schemaPointer ++ name) = some name := by
  have hStarts : (schemaPointer ++ name).startsWith schemaPointer = true := by
    rw [String.startsWith_string_iff, String.toList_append]
    exact List.prefix_append _ _
  rw [pointedName?, if_pos hStarts, String.toList_append, ← String.length_toList,
    List.drop_left, String.ofList_toList]

theorem originKey_ne_refKey : Value.str originKey ≠ .str refKey := by
  simp [originKey, refKey]

/-- What a reference is expanded to, if that is a mapping, names what the reference points to. -/
theorem Expands.referenceName?_eq {inside : Option String} {place ref : String} {node : Value}
    {entries : Entries} (hNoOrigin : node.field? originKey = none)
    (hRef : openRef? node = some ref) (hText : ref ≠ "")
    (h : Expands document inside place node (.ok (.map entries))) :
    referenceName? (.map entries) = pointedName? ref := by
  have hTruthy : (Value.str ref).isTruthy = true := bne_iff_ne.mpr hText
  cases node with
  | map own =>
    obtain ⟨hPlain, -⟩ | ⟨ref', siblings, hRef', hSiblings, hWhat⟩ := h.map_cases
    · rw [hPlain] at hRef
      cases hRef
    · rw [hRef] at hRef'
      cases hRef'
      have hNoSibling : Dictionary.get? siblings (.str originKey) = none := by
        refine hSiblings.get?_none ?_
        rw [get?_erase_of_ne originKey_ne_refKey]
        exact hNoOrigin
      obtain ⟨target, x, -, -, -, hSame⟩ | ⟨-, hSame⟩ := hWhat
      · cases x with
        | map es =>
          -- the origin of the reference is put over what the target says of its own
          cases hSame
          have hOrigin : (Value.map (Dictionary.overlay
              (Dictionary.put es (.str originKey) (.str ref)) siblings)).field? originKey =
              some (.str ref) :=
            (get?_overlay_of_none (steady_str _) hNoSibling).trans
              (get?_put_of_beq (steady_str _) (beq_str.mpr rfl))
          rw [referenceName?, hOrigin, orElse, if_pos hTruthy]
        | _ => cases hSame
      · -- the reference is still there, and no origin comes before it
        rw [openNode_eq] at hSame
        cases hSame
        have hAlone : Dictionary.get? [(Value.str refKey, Value.str ref)] (.str originKey) = none := by
          rw [Dictionary.get?, if_neg (fun h => originKey_ne_refKey (str_beq.mp h)), Dictionary.get?]
        have hOrigin : (Value.map (Dictionary.overlay [(.str refKey, .str ref)] siblings)).field?
            originKey = none :=
          (get?_overlay_of_none (steady_str _) hNoSibling).trans hAlone
        have hNoRef : Dictionary.get? siblings (.str refKey) = none :=
          hSiblings.get?_none (get?_erase_self _ _)
        have hOpen : (Value.map (Dictionary.overlay [(.str refKey, .str ref)] siblings)).field?
            refKey = some (.str ref) :=
          (get?_overlay_of_none (steady_str _) hNoRef).trans
            (by rw [Dictionary.get?, if_pos (beq_str.mpr rfl)])
        rw [referenceName?, hOrigin, hOpen]
        rfl
  | _ => cases hRef

/-- The target of the reference is expanded to this value. -/
def TargetExpands (document : Value) (ref : String) (w : Value) : Prop :=
  ∃ target, resolve document ref = .ok target ∧ Expands document (some ref) ref target (.ok w)

/-- Only the target of a reference can make it anything but a mapping, and then it takes the place
of the whole node. -/
theorem Expands.targetExpands {inside : Option String} {place ref : String} {node w : Value}
    (hRef : openRef? node = some ref) (h : Expands document inside place node (.ok w))
    (hOther : w.isMapping = false) : TargetExpands document ref w := by
  cases node with
  | map own =>
    obtain ⟨hPlain, -⟩ | ⟨ref', siblings, hRef', -, hWhat⟩ := h.map_cases
    · rw [hPlain] at hRef
      cases hRef
    · rw [hRef] at hRef'
      cases hRef'
      obtain ⟨target, x, -, hTarget, hExpands, rfl⟩ | ⟨-, rfl⟩ := hWhat
      · cases x with
        | map _ => cases hOther
        | _ => exact ⟨target, hTarget, hExpands⟩
      · cases hOther
  | _ => cases hRef

end ClientGen.Document

namespace ClientGen.Schema

open ClientGen.Document ClientGen.Document.Value

/-- The mapping is no reference and describes a list of such items, without properties. -/
structure ListOf (v items : Value) : Prop where
  noReference  : openRef? v = none
  type         : v.field? "type" = some (.str "array")
  noProperties : v.field? "properties" = none
  items        : v.field? "items" = some items

theorem ListOf.isMapping {v items : Value} (h : ListOf v items) : v.isMapping = true :=
  isMapping_of_field? h.items

theorem ListOf.isTruthy {v items : Value} (h : ListOf v items) : v.isTruthy = true := by
  cases v with
  | map entries =>
    cases entries with
    | nil => cases h.items
    | cons _ _ => rfl
  | _ => cases h.items

/-- Expansion keeps what describes a list, and expands the items. What is under the key of
references must not be a reference itself: it could be expanded to a text. -/
theorem ListOf.expands {document : Value} {inside : Option String} {place : String}
    {node items w : Value} (h : ListOf node items)
    (hInner : ∀ v, node.field? refKey = some v → openRef? v = none)
    (hExpands : Expands document inside place node (.ok w)) :
    (∃ place' items', ListOf w items' ∧ Expands document inside place' items (.ok items')) ∧
      (node.field? originKey = none → w.field? originKey = none) := by
  cases node with
  | map entries =>
    obtain ⟨-, es, hEntries, rfl⟩ | ⟨ref, -, hRef, -⟩ := hExpands.map_cases
    · obtain ⟨_, type, hType, hTypeExpands⟩ := hEntries.get?_some h.type
      obtain ⟨place', items', hItems, hItemsExpand⟩ := hEntries.get?_some h.items
      cases hTypeExpands
      have hNoReference := h.noReference
      have hPlain : openRef? (.map es) = none := by
        rw [Option.eq_none_iff_forall_ne_some]
        intro ref hRef
        obtain ⟨v, hValue, _, hText⟩ := hEntries.exists_of_get? (openRef?_map.mp hRef)
        rw [hText.eq_str (hInner v hValue)] at hValue
        rw [openRef?_map.mpr hValue] at hNoReference
        cases hNoReference
      exact ⟨⟨place', items', ⟨hPlain, hType, hEntries.get?_none h.noProperties, hItems⟩,
        hItemsExpand⟩, hEntries.get?_none⟩
    · rw [h.noReference] at hRef
      cases hRef
  | _ => cases h.items

/-- Without an origin of its own the description of a list names no schema. -/
theorem ListOf.referenceName?_eq {v items : Value} (h : ListOf v items)
    (hNoOrigin : v.field? originKey = none) : referenceName? v = none := by
  have hPlain := h.noReference
  rw [openRef?] at hPlain
  rw [referenceName?, hNoOrigin]
  cases hValue : v.field? refKey with
  | none => rfl
  | some u =>
    cases u with
    | str ref =>
      rw [hValue] at hPlain
      cases hPlain
    | _ => rfl

end ClientGen.Schema

namespace ClientGen.Api

open ClientGen.Document ClientGen.Document.Value ClientGen.Schema

-- ---------------------------------------------------------------------------
-- Responses
-- ---------------------------------------------------------------------------

section Responses

variable {table : Dictionary String EnvelopeTarget}

theorem referencedClass?_eq {v : Value} {name : String} (h : referenceName? v = some name)
    (hName : name ≠ "") : Response.referencedClass? v = some (Naming.dtoClass name) := by
  rw [Response.referencedClass?, h, Option.filter_some, if_pos (bne_iff_ne.mpr hName),
    Option.map_some]

/-- A mapping that names a schema is not empty. -/
theorem isTruthy_of_referenceName? {v : Value} {name : String} (h : referenceName? v = some name) :
    v.isTruthy = true := by
  cases v with
  | map entries =>
    cases entries with
    | nil => cases h
    | cons _ _ => rfl
  | _ => cases h

/-- A schema that names another one is decided before it is looked into. -/
theorem ofSchema_of_reference {schema : Value} {name : String}
    (h : referenceName? schema = some name) (hName : name ≠ "") :
    (Response.ofSchema table schema).outcome = .ok (.object (Naming.dtoClass name) none none) := by
  rw [Response.ofSchema, isTruthy_of_referenceName? h, referencedClass?_eq h hName]
  rfl

/-- So are the items of a list. -/
theorem ofSchema_of_listOf {schema items : Value} {name : String} (hList : ListOf schema items)
    (hNoOrigin : schema.field? originKey = none) (hItems : items.isMapping = true)
    (h : referenceName? items = some name) (hName : name ≠ "") :
    (Response.ofSchema table schema).outcome = .ok (.array (Naming.dtoClass name) none none) := by
  have hNoClass : Response.referencedClass? schema = none := by
    rw [Response.referencedClass?, hList.referenceName?_eq hNoOrigin]
    rfl
  have hType : Response.hasType schema "array" = true := by
    rw [Response.hasType, hList.type]
    rfl
  have hHeld : Response.mapping? schema "items" = some items := by
    rw [Response.mapping?, hList.items, Option.filter_some, if_pos hItems]
  have hOfItems : Response.ofItems table items = .array (Naming.dtoClass name) none none := by
    rw [Response.ofItems, referencedClass?_eq h hName]
  have hProperties : schema.member "properties" = .ok none := by
    cases schema with
    | map entries => exact congrArg Except.ok hList.noProperties
    | _ => cases hList.items
  rw [Response.ofSchema, hList.isTruthy, hNoClass, hProperties, hType, hHeld, Option.map_some,
    hOfItems]
  rfl

end Responses

-- ---------------------------------------------------------------------------
-- Success schemas
-- ---------------------------------------------------------------------------

/-- The code under which an operation has its success response: the text, or the number where
there is no such text. -/
inductive SuccessCode (operation : Value) : Value → Prop
  | text : SuccessCode operation (.str "200")
  | number (h : operation.at? [.str "responses", .str "200"] = none) :
      SuccessCode operation (.int 200)

/-- Where the schema of a response stands below its operation. -/
def schemaKeys (code : Value) : List Value :=
  [.str "responses", code, .str "content", .str "application/json", .str "schema"]

/-- The success schema of an operation is what stands there. -/
theorem successSchema?_eq {operation code schema : Value} (hCode : SuccessCode operation code)
    (hSchema : operation.at? (schemaKeys code) = some schema) (hMapping : schema.isMapping = true)
    (hTruthy : schema.isTruthy = true) : Response.successSchema? operation = .ok (some schema) := by
  obtain ⟨own, _, rfl, hOwn, hSchema⟩ := exists_of_at?_cons hSchema
  obtain ⟨answers, _, rfl, hSuccess, hSchema⟩ := exists_of_at?_cons hSchema
  obtain ⟨success, _, rfl, hContent, hSchema⟩ := exists_of_at?_cons hSchema
  obtain ⟨content, _, rfl, hMedia, hSchema⟩ := exists_of_at?_cons hSchema
  obtain ⟨media, _, rfl, hHeld, hSchema⟩ := exists_of_at?_cons hSchema
  cases hSchema
  have hMember : (Value.map own).member "responses" = .ok (some (.map answers)) :=
    congrArg Except.ok hOwn
  have hMediaMember : (Value.map content).member "application/json" = .ok (some (.map media)) :=
    congrArg Except.ok hMedia
  have hAnswer : (Dictionary.get? answers (.str "200")).or (Dictionary.get? answers (.int 200)) =
      some (.map success) := by
    cases hCode with
    | text => rw [hSuccess, Option.some_or]
    | number hNone =>
      have hNoText : Dictionary.get? answers (.str "200") = none := by
        simpa [Value.at?, hOwn] using hNone
      rw [hNoText, Option.none_or, hSuccess]
  rw [Response.successSchema?, hMember, ok_bind, orElse_of_get? hSuccess, Value.entries, ok_bind]
  dsimp only
  rw [hAnswer]
  dsimp only
  rw [hContent, orElse_of_get? hMedia, hMediaMember, ok_bind]
  dsimp only
  rw [hHeld, Option.filter_some, hMapping, hTruthy]
  rfl

-- ---------------------------------------------------------------------------
-- Operations
-- ---------------------------------------------------------------------------

/-- What is kept of a response is the response, and nothing where there was none. -/
theorem keptResponse_cases (response : Response) :
    (response ≠ .none → keptResponse response = some response) ∧
      ∀ held, keptResponse response = some held → held = response := by
  cases response with
  | none =>
    refine ⟨fun hSome => absurd rfl hSome, ?_⟩
    intro held hSame
    cases hSame
  | _ => exact ⟨fun _ => rfl, fun _ hSame => (Option.some.inj hSame).symm⟩

/-- The response of an endpoint is found by way of the success schema of its operation. -/
theorem exists_response_of_ofOperation {settings : Settings} {method : String}
    {path operation pathLevel : Value} {e : Endpoint}
    (h : (Endpoint.ofOperation settings method path operation pathLevel).outcome = .ok e) :
    ∃ success response, Response.successSchema? operation = .ok success ∧
      (∀ schema, success = some schema →
        (Response.ofSchema settings.tables.envelopeTargets schema).outcome = .ok response) ∧
      (success = none → response = .none) ∧ (response ≠ .none → e.response = some response) ∧
      ∀ held, e.response = some held → held = response := by
  obtain ⟨d, hRead⟩ := exists_isReadFrom h
  obtain ⟨success, response, hSuccess, hDescribed, hKept⟩ := hRead.response
  refine ⟨success, response, hSuccess, ?_, ?_, ?_⟩
  · rintro schema rfl
    exact hDescribed
  · rintro rfl
    exact (Except.ok.inj hDescribed).symm
  · rw [hKept]
    exact keptResponse_cases response

theorem response_of_ofOperation {settings : Settings} {method : String}
    {path operation pathLevel schema : Value} {e : Endpoint} {response : Response}
    (h : (Endpoint.ofOperation settings method path operation pathLevel).outcome = .ok e)
    (hSchema : Response.successSchema? operation = .ok (some schema))
    (hResponse : (Response.ofSchema settings.tables.envelopeTargets schema).outcome = .ok response)
    (hSome : response ≠ .none) : e.response = some response := by
  obtain ⟨success, response', hSuccess, hOfSchema, -, hHeld, -⟩ := exists_response_of_ofOperation h
  cases hSchema.symm.trans hSuccess
  cases hResponse.symm.trans (hOfSchema schema rfl)
  exact hHeld hSome

-- ---------------------------------------------------------------------------
-- Documents
-- ---------------------------------------------------------------------------

/-- Where an operation stands in a document. -/
def operationPlace (path method : String) : List Value := [.str "paths", .str path, .str method]

/-- The specification has one endpoint with this method and path, and its response is the given
one. -/
def Responds (s : Specification) (method : Method) (path : String) (response : Response) : Prop :=
  ∃ e ∈ s.endpoints, e.method = method ∧ e.path = path ∧ e.response = some response ∧
    ∀ f ∈ s.endpoints, f.key = e.key → f = e

/-- The one endpoint of an operation has the response of its success schema. -/
theorem responds_of_successSchema {settings : Settings} {document operation schema : Value}
    {s : Specification} {path method : String} {m : Method} {response : Response}
    (hKeyed : document.wellKeyed = true)
    (hSpecification : (Specification.ofDocument settings document).outcome = .ok s)
    (hMethod : method ∈ Endpoint.operationMethods) (hName : Method.ofName? method = some m)
    (hOperation : document.at? (operationPlace path method) = some operation)
    (hSchema : Response.successSchema? operation = .ok (some schema))
    (hResponse : (Response.ofSchema settings.tables.envelopeTargets schema).outcome = .ok response)
    (hSome : response ≠ .none) : Responds s m path response := by
  have hOperationKeyed := (within_of_at? hOperation).wellKeyed hKeyed
  obtain ⟨item, hItem, hMember⟩ := Option.bind_eq_some_iff.mp
    ((at?_append document [.str "paths", .str path] [.str method]).symm.trans hOperation)
  obtain ⟨_, _, rfl, hMember, hHeld⟩ := exists_of_at?_cons hMember
  cases hHeld
  obtain ⟨own, hOwn, hSubset⟩ :=
    exists_of_endpointsOf (endpointsOf_of_ofDocument hSpecification) hItem
  obtain ⟨e, he, pathLevel, hEndpoint⟩ := exists_of_ofPathItem hOwn hMethod hMember
  obtain ⟨hOwnMethod, hPath, -⟩ := ofOperation_normal hOperationKeyed hEndpoint
  rw [hName] at hOwnMethod
  refine ⟨e, hSubset he, (Option.some.inj hOwnMethod).symm, (str.inj hPath).symm,
    response_of_ofOperation hEndpoint hSchema hResponse hSome, ?_⟩
  intro f hf hSame
  have hKeys := (ofDocument_normal hKeyed hSpecification).keys
  exact List.inj_on_of_nodup_map hKeys hf (hSubset he) hSame

section Named

variable {settings : Settings} {document expanded operation node schema code : Value}
  {s : Specification} {path method name : String} {m : Method}

/-- Where the schema stands in the expanded document. -/
theorem at?_schemaPlace (hOperation : expanded.at? (operationPlace path method) = some operation)
    (hSchema : operation.at? (schemaKeys code) = some schema) :
    expanded.at? (operationPlace path method ++ schemaKeys code) = some schema := by
  rw [at?_append, hOperation]
  exact hSchema

theorem steady_schemaPlace (hCode : SuccessCode operation code) :
    ∀ k ∈ operationPlace path method ++ schemaKeys code, Steady k := by
  cases hCode <;> simp [operationPlace, schemaKeys, steady_str, steady_int]

theorem getLast?_schemaPlace :
    (operationPlace path method ++ schemaKeys code).getLast? ≠ some (.str originKey) := by
  simp [schemaKeys, originKey]

/-- A node that is expanded to a mapping names the component schema it points to. -/
theorem referenceName?_of_pointer {inside : Option String} {place : String} {v w : Value}
    (hNoOrigin : v.field? originKey = none) (hRef : openRef? v = some (schemaPointer ++ name))
    (hExpands : Expands document inside place v (.ok w)) (hMapping : w.isMapping = true) :
    referenceName? w = some name := by
  have hText : schemaPointer ++ name ≠ "" := by
    simp [schemaPointer]
  cases w with
  | map entries =>
    rw [hExpands.referenceName?_eq hNoOrigin hRef hText, pointedName?_append]
  | _ => cases hMapping

/-- A success schema that names another one has its response. -/
theorem responds_of_named (hKeyed : expanded.wellKeyed = true)
    (hSpecification : (Specification.ofDocument settings expanded).outcome = .ok s)
    (hMethod : method ∈ Endpoint.operationMethods) (hMethodName : Method.ofName? method = some m)
    (hOperation : expanded.at? (operationPlace path method) = some operation)
    (hCode : SuccessCode operation code) (hSchema : operation.at? (schemaKeys code) = some schema)
    (hMapping : schema.isMapping = true) (hReference : referenceName? schema = some name)
    (hName : name ≠ "") : Responds s m path (.object (Naming.dtoClass name) none none) :=
  responds_of_successSchema hKeyed hSpecification hMethod hMethodName hOperation
    (successSchema?_eq hCode hSchema hMapping (isTruthy_of_referenceName? hReference))
    (ofSchema_of_reference hReference hName) nofun

/-- So has one that describes a list of such items. -/
theorem responds_of_namedItems {item : Value} (hKeyed : expanded.wellKeyed = true)
    (hSpecification : (Specification.ofDocument settings expanded).outcome = .ok s)
    (hMethod : method ∈ Endpoint.operationMethods) (hMethodName : Method.ofName? method = some m)
    (hOperation : expanded.at? (operationPlace path method) = some operation)
    (hCode : SuccessCode operation code) (hSchema : operation.at? (schemaKeys code) = some schema)
    (hList : ListOf schema item) (hOrigin : schema.field? originKey = none)
    (hMapping : item.isMapping = true) (hReference : referenceName? item = some name)
    (hName : name ≠ "") : Responds s m path (.array (Naming.dtoClass name) none none) :=
  responds_of_successSchema hKeyed hSpecification hMethod hMethodName hOperation
    (successSchema?_eq hCode hSchema hList.isMapping hList.isTruthy)
    (ofSchema_of_listOf hList hOrigin hMapping hReference hName) nofun

end Named

/-- **Direct references are recognised.** Take an operation whose success schema is a reference to
a component schema with a name, in a document that has no origins of its own. After expansion the
one endpoint of the operation has an object of this schema's class as its response, unless the target
takes the place of the whole node because it is expanded to something other than a mapping. For a
list of such items the response is a list of objects of the class. -/
theorem response_of_reference {settings : Settings}
    {document expanded operation node schema code : Value} {s : Specification}
    {path method name : String} {m : Method} (hKeyed : document.wellKeyed = true)
    (hNoOrigin : document.valuesUnder originKey = [])
    (hExpanded : (expand document).outcome = .ok expanded)
    (hSpecification : (Specification.ofDocument settings expanded).outcome = .ok s)
    (hMethod : method ∈ Endpoint.operationMethods) (hMethodName : Method.ofName? method = some m)
    (hNode : Leads document document (operationPlace path method ++ schemaKeys code) node)
    (hOperation : expanded.at? (operationPlace path method) = some operation)
    (hCode : SuccessCode operation code) (hSchema : operation.at? (schemaKeys code) = some schema)
    (hName : name ≠ "") :
    (openRef? node = some (schemaPointer ++ name) →
      (schema.isMapping = true → Responds s m path (.object (Naming.dtoClass name) none none)) ∧
      (schema.isMapping = false → TargetExpands document (schemaPointer ++ name) schema)) ∧
    ∀ items, ListOf node items → (∀ v, node.field? refKey = some v → openRef? v = none) →
      openRef? items = some (schemaPointer ++ name) →
      ∃ item, schema.field? "items" = some item ∧
        (item.isMapping = true → Responds s m path (.array (Naming.dtoClass name) none none)) ∧
        (item.isMapping = false → TargetExpands document (schemaPointer ++ name) item) := by
  have hExpandedKeyed := expand_wellKeyed hKeyed hExpanded
  have hWithin := hNode.within (.refl document)
  have hNodeOrigin := hWithin.field?_eq_none hNoOrigin
  obtain ⟨inside, place, hExpands⟩ := hNode.expands hKeyed getLast?_schemaPlace
    (steady_schemaPlace hCode) (.refl document) (hExpanded ▸ expand_follows document)
    (at?_schemaPlace hOperation hSchema)
  constructor
  · intro hRef
    refine ⟨fun hMapping => ?_, hExpands.targetExpands hRef⟩
    exact responds_of_named hExpandedKeyed hSpecification hMethod hMethodName hOperation hCode hSchema
      hMapping (referenceName?_of_pointer hNodeOrigin hRef hExpands hMapping) hName
  · intro items hList hInner hRef
    obtain ⟨⟨place', item, hList', hItemsExpand⟩, hOrigin⟩ := hList.expands hInner hExpands
    refine ⟨item, hList'.items, fun hMapping => ?_, hItemsExpand.targetExpands hRef⟩
    exact responds_of_namedItems hExpandedKeyed hSpecification hMethod hMethodName hOperation hCode
      hSchema hList' (hOrigin hNodeOrigin) hMapping (referenceName?_of_pointer
        ((hWithin.of_field? hList.items).field?_eq_none hNoOrigin) hRef hItemsExpand hMapping) hName

/-- A reference to a component schema, with a sibling. -/
def toPet : Value :=
  .map [(.str "$ref", .str "#/components/schemas/Pet"), (.str "title", .str "A pet")]

/-- Responses of which the success response has the schema. -/
def answers (schema : Value) : Entries :=
  [(.str "200", .map [(.str "content", .map [
    (.str "application/json", .map [(.str "schema", schema)])])])]

/-- An operation whose success response has the schema. -/
def answering (schema : Value) : Value := .map [(.str "responses", .map (answers schema))]

/-- A document that answers with pets and holds a schema of them. -/
def petDocument (pet schema : Value) : Value :=
  .map [(.str "info", .map []),
    (.str "paths", .map [(.str "/pets", .map [
      (.str "get", answering (.map [(.str "type", .str "array"), (.str "items", pet)])),
      (.str "post", answering pet)])]),
    (.str "components", .map [(.str "schemas", .map [(.str "Pet", schema)])])]

/-- Pets hold a property that makes an envelope of other schemas, and in it a pet. -/
def petSchema (pet : Value) : Value := .map [(.str "properties", .map [(.str "user", pet)])]

/-- The reference to pets, expanded where no pet is being expanded. -/
def expandedPet : Value :=
  .map [(.str "properties", .map [(.str "user", toPet)]),
    (.str originKey, .str "#/components/schemas/Pet"), (.str "title", .str "A pet")]

theorem expand_petDocument : (expand (petDocument toPet (petSchema toPet))).outcome =
    .ok (petDocument expandedPet (petSchema expandedPet)) := by
  -- texts are unfolded by equations from all over the library, which is imported whole for that
  cbv

theorem responds_petDocument :
    ∃ s, (expand (petDocument toPet (petSchema toPet))).outcome =
        .ok (petDocument expandedPet (petSchema expandedPet)) ∧
      (Specification.ofDocument {} (petDocument expandedPet (petSchema expandedPet))).outcome = .ok s ∧
      Responds s .post "/pets" (.object "Pet" none none) ∧
      Responds s .get "/pets" (.array "Pet" none none) := by
  let before := petDocument toPet (petSchema toPet)
  let after := petDocument expandedPet (petSchema expandedPet)
  have hKeyed : before.wellKeyed = true := by decide +kernel
  have hNoOrigin : before.valuesUnder originKey = [] := by cbv
  obtain ⟨s, hSpecification⟩ : ∃ s, (Specification.ofDocument {} after).outcome = .ok s :=
    exists_of_toOption_isSome (by decide +kernel)
  have hRef : openRef? toPet = some (schemaPointer ++ "Pet") := by decide +kernel
  have hKeys : ∀ method, ∀ k ∈ operationPlace "/pets" method ++ schemaKeys (.str "200"),
      method ≠ refKey → k ≠ .str refKey := by
    simp [operationPlace, schemaKeys, refKey]
  refine ⟨s, expand_petDocument, hSpecification, ?_, ?_⟩
  · have hNode : before.at? (operationPlace "/pets" "post" ++ schemaKeys (.str "200")) =
        some toPet := by
      cbv
    have hOperation : after.at? (operationPlace "/pets" "post") = some (answering expandedPet) := by
      cbv
    have hSchema : (answering expandedPet).at? (schemaKeys (.str "200")) = some expandedPet := by cbv
    exact (response_of_reference hKeyed hNoOrigin expand_petDocument hSpecification
      (by decide +kernel) (by decide +kernel)
      (leads_of_at? (fun k hk => hKeys _ k hk (by decide)) hNode) hOperation .text hSchema
      (by decide)).1 hRef |>.1 rfl
  · have hNode : before.at? (operationPlace "/pets" "get" ++ schemaKeys (.str "200")) =
        some (.map [(.str "type", .str "array"), (.str "items", toPet)]) := by
      cbv
    have hOperation : after.at? (operationPlace "/pets" "get") =
        some (answering (.map [(.str "type", .str "array"), (.str "items", expandedPet)])) := by
      cbv
    have hSchema : (answering (.map [(.str "type", .str "array"), (.str "items", expandedPet)])).at?
        (schemaKeys (.str "200")) =
          some (.map [(.str "type", .str "array"), (.str "items", expandedPet)]) := by
      cbv
    have hList : ListOf (.map [(.str "type", .str "array"), (.str "items", toPet)]) toPet := by
      constructor <;> cbv
    have hInner : (Value.map [(.str "type", .str "array"), (.str "items", toPet)]).field? refKey =
        none := by
      cbv
    have hItems : (Value.map [(.str "type", .str "array"), (.str "items", expandedPet)]).field?
        "items" = some expandedPet := by
      cbv
    obtain ⟨item, hItem, hResponds, -⟩ :=
      (response_of_reference (m := .get) hKeyed hNoOrigin expand_petDocument hSpecification
        (by decide +kernel) (by decide +kernel)
        (leads_of_at? (fun k hk => hKeys _ k hk (by decide)) hNode) hOperation .text hSchema
        (by decide)).2 toPet hList (by simp [hInner]) hRef
    cases hItems.symm.trans hItem
    exact hResponds rfl

/-- A list of pets with a value at the key of references. -/
def petsBeside (ref pet : Value) : Value :=
  .map [(.str "type", .str "array"), (.str "items", pet), (.str refKey, ref)]

/-- An operation with a name. -/
def asking (responses : Value) : Value :=
  .map [(.str "operationId", .str "ask"), (.str "responses", responses)]

/-- A document that answers with a list, and with responses of any kind. It holds the name of another
schema and an empty list. -/
def divertedDocument (list responses : Value) : Value :=
  .map [(.str "info", .map []),
    (.str "paths", .map [(.str "/pets", .map [
      (.str "get", asking (.map (answers list))), (.str "post", asking responses)])]),
    (.str "components", .map [(.str "schemas", .map [(.str "Pet", .map [])])]),
    (.str "other", .str "#/components/schemas/User"), (.str "empty", .list [])]

/-- The list has a reference to the name, and the responses are one to the empty list. -/
def beforeDiversion : Value :=
  divertedDocument (petsBeside (.map [(.str "$ref", .str "#/other")]) toPet)
    (.map ((.str "$ref", .str "#/empty") :: answers toPet))

/-- The same document expanded. -/
def afterDiversion : Value :=
  divertedDocument
    (petsBeside (.str "#/components/schemas/User")
      (.map [(.str originKey, .str "#/components/schemas/Pet"), (.str "title", .str "A pet")]))
    (.list [])

theorem expand_beforeDiversion : (expand beforeDiversion).outcome = .ok afterDiversion := by
  have hAcyclic : Acyclic beforeDiversion := acyclic_of_rank (fun _ => 0) (by decide +kernel)
  exact outcome_expand_of_plainly hAcyclic fun deeper => (by cbv : expandPlainly (deeper + 12) _ = _)

/-- A list with a reference at the key of references can be expanded to a list that is a reference to
another schema, and where the responses stand for something else the schema in them is lost. -/
theorem responses_afterDiversion :
    beforeDiversion.wellKeyed = true ∧ beforeDiversion.valuesUnder originKey = [] ∧
      openRef? toPet = some (schemaPointer ++ "Pet") ∧
      resolve beforeDiversion (schemaPointer ++ "Pet") = .ok (.map []) ∧
      (∃ list, beforeDiversion.at? (operationPlace "/pets" "get" ++ schemaKeys (.str "200")) =
        some list ∧ ListOf list toPet) ∧
      beforeDiversion.at? (operationPlace "/pets" "post" ++ schemaKeys (.str "200")) = some toPet ∧
      (expand beforeDiversion).outcome = .ok afterDiversion ∧
      ∃ s, (Specification.ofDocument {} afterDiversion).outcome = .ok s ∧
        s.endpoints.map (fun e => (e.key, e.response)) =
          [("GET /pets", some (.object "User" none none)), ("POST /pets", none)] := by
  have hEndpoints : ((Specification.ofDocument {} afterDiversion).outcome.toOption.map fun s =>
      s.endpoints.map fun e => (e.key, e.response)) =
        some [("GET /pets", some (.object "User" none none)), ("POST /pets", none)] := by
    cbv
  obtain ⟨s, hSpecification, hResponses⟩ := Option.map_eq_some_iff.mp hEndpoints
  have hList : beforeDiversion.at? (operationPlace "/pets" "get" ++ schemaKeys (.str "200")) =
      some (petsBeside (.map [(.str "$ref", .str "#/other")]) toPet) := by
    cbv
  have hListOf : ListOf (petsBeside (.map [(.str "$ref", .str "#/other")]) toPet) toPet := by
    constructor <;> cbv
  exact ⟨by decide +kernel, by cbv, by decide +kernel, by cbv, ⟨_, hList, hListOf⟩, by cbv,
    expand_beforeDiversion, s, ok_of_toOption hSpecification, hResponses⟩

end ClientGen.Api
