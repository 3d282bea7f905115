import ClientGen.Proofs.Api.DirectReference
import ClientGen.Proofs.Document.Pointers
import ClientGen.Proofs.Document.Sharing
import ClientGen.Proofs.Naming.Identifiers
import ClientGen.Proofs.Unit.Closure

/-!
# The class of a referenced schema

A component schema that describes objects has a data class, which is named after its key. A response
that refers to the schema is decoded into a class as well, and this one is named after the pointer:
references are followed by the keys that a pointer stands for, but a name is taken from its text as it
is written. So the two classes are the same just if the key is written as it is, without `~0` and
`~1`. Otherwise the response is decoded into a class of its own that knows nothing of the schema.

Main results:

* `get?_dtosOf` — the class of a component that shares it with no other one has this component's
  schema.
* `dtoClass_encodeKey_iff` — what is written for a key gives the class of the key if and only if it
  is the key.
* `decoded_class_of_reference` — the class that a reference is decoded into, and the class of the
  schema it refers to.
-/

namespace ClientGen.Api

open ClientGen.Document ClientGen.Document.Value

/-- The schemas of a specification are those of its document. -/
theorem at?_of_mem_schemas {settings : Settings} {document own : Value} {s : Specification}
    {key : String} (hKeyed : document.wellKeyed = true)
    (h : (Specification.ofDocument settings document).outcome = .ok s)
    (hOwn : (Value.str key, own) ∈ s.components.schemas) :
    document.at? [.str "components", .str "schemas", .str key] = some own := by
  obtain ⟨hComponents, -⟩ := exists_of_ofDocument h
  generalize hHeld : (document.field? "components").getD .null = components at hComponents
  generalize s.components = c at hComponents hOwn
  unfold Components.ofValue at hComponents
  split at hComponents
  · cases hComponents
    cases hOwn
  · rename_i hMapping
    obtain ⟨schemes, -, hComponents⟩ := exists_of_bind_ok hComponents
    obtain ⟨schemas, hSchemas, hComponents⟩ := exists_of_bind_ok hComponents
    cases hComponents
    obtain ⟨entries, hEntries, hSchemas⟩ := exists_of_bind_ok hSchemas
    split at hSchemas
    · rename_i sorted hSorted
      cases hSchemas
      have hMem : (Value.str key, own) ∈ entries :=
        (sortOn?_perm hSorted).subset (List.mem_of_mem_filter hOwn)
      -- there are entries, so they are not those of the default
      have hField : components.field? "schemas" = some (.map entries) := by
        cases hSome : components.field? "schemas" with
        | none =>
          rw [hSome] at hEntries
          cases hEntries
          cases hMem
        | some v =>
          rw [hSome, orElse] at hEntries
          split at hEntries
          · cases v with
            | map es =>
              cases hEntries
              rfl
            | _ => cases hEntries
          · cases hEntries
            cases hMem
      have hDocument : document.field? "components" = some components := by
        cases hSome : document.field? "components" with
        | none =>
          rw [hSome] at hHeld
          rw [← hHeld] at hField
          cases hField
        | some v =>
          rw [hSome] at hHeld
          exact congrArg some hHeld
      have hDistinct : Dictionary.Distinct entries :=
        (wellKeyed_map.mp (field?_wellKeyed (field?_wellKeyed hKeyed hDocument) hField)).1
      have hOwnHeld : Dictionary.get? entries (.str key) = some own :=
        Dictionary.get?_of_mem hDistinct hMem (beq_str.mpr rfl)
      cases document with
      | map top =>
        cases components with
        | map held =>
          rw [at?_map hDocument, at?_map hField, at?_map hOwnHeld]
          rfl
        | _ => cases hField
      | _ => cases hDocument
    · cases hSchemas

end ClientGen.Api

namespace ClientGen.Document.Pointer

open ClientGen.Schema

theorem pointerTo_schema (key : String) :
    pointerTo ["components", "schemas", key] = schemaPointer ++ encodeKey key := by
  have hComponents : encodeKey "components" = "components" := by decide
  have hSchemas : encodeKey "schemas" = "schemas" := by decide
  rw [← String.toList_inj]
  simp [pointerTo, schemaPointer, hComponents, hSchemas]

theorem at?_of_follow? {v w : Value} {keys : List String} (h : follow? v keys = some w) :
    v.at? (keys.map .str) = some w := by
  induction keys generalizing v with
  | nil => exact h
  | cons key keys ih =>
    obtain ⟨member, hMember, hRest⟩ := Option.bind_eq_some_iff.mp h
    cases v with
    | map entries => exact (Value.at?_map hMember).mpr (ih hRest)
    | _ => cases hMember

end ClientGen.Document.Pointer

namespace ClientGen.Unit

open ClientGen.Api ClientGen.Document ClientGen.Document.Value ClientGen.Enumeration ClientGen.Naming
  ClientGen.Schema ClientGen.Text

-- ---------------------------------------------------------------------------
-- The class of a component
-- ---------------------------------------------------------------------------

section Described

variable {dtos dtos' : Dictionary String Value} {className : String} {own : Value}

/-- A component schema leaves the classes that are there as they are, and its own class is there in the
end. -/
theorem addComponentDto_get? (className : String) {entry : Value × Value}
    (h : (addComponentDto dtos entry).outcome = .ok dtos') :
    (∀ schema, dtos.get? className = some schema → dtos'.get? className = some schema) ∧
      (∀ schema, dtos'.get? className = some schema → dtos.get? className = some schema ∨
        ∃ text, entry = (.str text, schema) ∧ describesObject schema = true ∧
          dtoClass text = className) ∧
      ∀ text, entry.1 = .str text → describesObject entry.2 = true → dtoClass text = className →
        ∃ schema, dtos'.get? className = some schema := by
  obtain ⟨name, schema⟩ := entry
  obtain ⟨hNoObject, rfl⟩ | ⟨text, rfl, hObject, ⟨hHas, rfl⟩ | ⟨hNew, rfl⟩⟩ := addComponentDto_cases h
  · refine ⟨fun _ => id, fun _ => Or.inl, fun _ _ hObject => ?_⟩
    rw [hNoObject] at hObject
    cases hObject
  · refine ⟨fun _ => id, fun _ => Or.inl, ?_⟩
    rintro _ ⟨⟩ - rfl
    rw [Dictionary.has_eq_isSome] at hHas
    exact Option.isSome_iff_exists.mp hHas
  · by_cases hSame : dtoClass text = className
    · subst hSame
      rw [Dictionary.has_eq_isSome, Option.isSome_eq_false_iff, Option.isNone_iff_eq_none] at hNew
      rw [Dictionary.get?_put_self]
      refine ⟨fun _ hBefore => ?_, fun _ hAfter => Or.inr ?_, fun _ _ _ _ => ⟨schema, rfl⟩⟩
      · rw [hNew] at hBefore
        cases hBefore
      · cases hAfter
        exact ⟨text, rfl, hObject, rfl⟩
    · rw [Dictionary.get?_put_of_ne hSame]
      refine ⟨fun _ => id, fun _ => Or.inl, ?_⟩
      rintro _ ⟨⟩ - hOther
      exact absurd hOther hSame

/-- A response leaves the classes that are there as they are. -/
theorem addResponseDto_get? {e : Endpoint} (h : (addResponseDto dtos e).outcome = .ok dtos')
    {schema : Value} (hThere : dtos.get? className = some schema) :
    dtos'.get? className = some schema := by
  obtain ⟨rfl, -⟩ | ⟨response, name, -, -, hNew, rfl⟩ := addResponseDto_cases h
  · exact hThere
  · rw [Dictionary.get?_put_of_ne, hThere]
    rintro rfl
    rw [Dictionary.has_eq_isSome, hThere] at hNew
    cases hNew

/-- If only one schema of a list has the class, it has this schema. -/
theorem addComponentDtos_get? {entries : Entries}
    (hOnly : ∀ text schema, (Value.str text, schema) ∈ entries → describesObject schema = true →
      dtoClass text = className → schema = own)
    (hBefore : ∀ schema, dtos.get? className = some schema → schema = own)
    (h : entries.foldlM (fun dtos entry => (addComponentDto dtos entry).outcome) dtos = .ok dtos')
    (hThere : (∃ schema, dtos.get? className = some schema) ∨
      ∃ text, (Value.str text, own) ∈ entries ∧ describesObject own = true ∧
        dtoClass text = className) :
    dtos'.get? className = some own := by
  induction entries generalizing dtos with
  | nil =>
    cases h
    obtain ⟨schema, hSchema⟩ | ⟨_, hMem, -⟩ := hThere
    · rw [hSchema, hBefore schema hSchema]
    · cases hMem
  | cons entry rest ih =>
    rw [List.foldlM_cons] at h
    obtain ⟨next, hStep, h⟩ := exists_of_bind_ok h
    obtain ⟨hKept, hNew, hOwn⟩ := addComponentDto_get? className hStep
    refine ih (fun text schema hMem => hOnly text schema (List.mem_cons_of_mem _ hMem)) ?_ h ?_
    · intro schema hSchema
      obtain hOld | ⟨text, rfl, hObject, hClass⟩ := hNew schema hSchema
      · exact hBefore schema hOld
      · exact hOnly text schema List.mem_cons_self hObject hClass
    · obtain ⟨schema, hSchema⟩ | ⟨text, hMem, hObject, hClass⟩ := hThere
      · exact Or.inl ⟨schema, hKept schema hSchema⟩
      · rcases List.mem_cons.mp hMem with rfl | hMem
        · exact Or.inl (hOwn text rfl hObject hClass)
        · exact Or.inr ⟨text, hMem, hObject, hClass⟩

/-- The class of a component schema that shares it with no other one has this schema. -/
theorem get?_dtosOf {s : Specification} {key : String} (h : (dtosOf s).outcome = .ok dtos)
    (hOwn : (Value.str key, own) ∈ s.components.schemas) (hObject : describesObject own = true)
    (hOnly : ∀ text schema, (Value.str text, schema) ∈ s.components.schemas →
      describesObject schema = true → dtoClass text = dtoClass key → schema = own) :
    dtos.get? (dtoClass key) = some own := by
  have hDistinct := dtosOf_distinct h
  unfold dtosOf at h
  obtain ⟨components, hComponents, h⟩ := Journal.exists_of_bind_ok h
  obtain ⟨all, hAll, h⟩ := Journal.exists_of_bind_ok h
  cases h
  rw [Journal.outcome_foldlM] at hComponents hAll
  have hFirst : components.get? (dtoClass key) = some own := by
    refine addComponentDtos_get? hOnly (fun _ hNone => ?_) hComponents
      (Or.inr ⟨key, hOwn, hObject, rfl⟩)
    cases hNone
  have hLast : all.get? (dtoClass key) = some own :=
    foldlM_ok_induction (fun dtos : Dictionary String Value => dtos.get? (dtoClass key) = some own)
      hFirst (fun _ _ _ _ hThere hStep => addResponseDto_get? hStep hThere) hAll
  -- sorting moves the entries only
  obtain ⟨⟨name, schema⟩, hMem, hName, rfl⟩ := Dictionary.exists_of_get? hLast
  obtain rfl : name = dtoClass key := beq_iff_eq.mp hName
  exact (Dictionary.get?_eq_some_iff hDistinct).mpr (List.mem_mergeSort.mpr hMem)

end Described

-- ---------------------------------------------------------------------------
-- The class of a pointer
-- ---------------------------------------------------------------------------

/-- The number of digits in a text. -/
def digits (text : String) : Nat := text.toList.countP Char.isDigit

/-- A class name keeps the digits of the text it is made of, and the guard has none. -/
theorem digits_dtoClass (name : String) : digits (dtoClass name) = digits name := by
  have hKept : (name.toList.filter isIdentifierChar).countP Char.isDigit =
      name.toList.countP Char.isDigit := by
    rw [List.countP_filter]
    refine List.countP_congr fun c _ => ?_
    simp only [isIdentifierChar, Char.isAlphanum, Bool.and_eq_true, Bool.or_eq_true]
    tauto
  have hGuard : "Dto".toList.countP Char.isDigit = 0 := by decide
  unfold digits dtoClass identifier
  dsimp only
  split
  · rw [String.toList_append, List.countP_append, hGuard, Nat.zero_add, String.toList_ofList, hKept]
  · rw [String.toList_ofList, hKept]

/-- Writing a key adds a digit for each tilde and each slash. -/
theorem digits_encodeKey (key : String) :
    digits (Pointer.encodeKey key) =
      digits key + key.toList.countP fun c => c == '~' || c == '/' := by
  unfold digits
  rw [Pointer.toList_encodeKey]
  induction key.toList with
  | nil => rfl
  | cons c cs ih =>
    rw [List.flatMap_cons, List.countP_append, ih, List.countP_cons, List.countP_cons]
    have hChar : (Pointer.encodeChar c).countP Char.isDigit =
        (if c.isDigit = true then 1 else 0) + if (c == '~' || c == '/') = true then 1 else 0 := by
      by_cases hSlash : c = '/'
      · subst hSlash
        decide
      · by_cases hTilde : c = '~'
        · subst hTilde
          decide
        · rw [Pointer.encodeChar_of_ne hSlash hTilde]
          simp [hSlash, hTilde, List.countP_cons]
    omega

/-- What is written for a key gives the class of the key if and only if it is the key. -/
theorem dtoClass_encodeKey_iff {key : String} :
    dtoClass (Pointer.encodeKey key) = dtoClass key ↔ '~' ∉ key.toList ∧ '/' ∉ key.toList := by
  constructor
  · intro hSame
    have hDigits := congrArg digits hSame
    rw [digits_dtoClass, digits_dtoClass, digits_encodeKey, Nat.add_eq_left, List.countP_eq_zero]
      at hDigits
    exact ⟨fun hMem => hDigits _ hMem rfl, fun hMem => hDigits _ hMem rfl⟩
  · rintro ⟨hTilde, hSlash⟩
    rw [Pointer.encodeKey_of_plain hTilde hSlash]

-- ---------------------------------------------------------------------------
-- Responses that refer to a component
-- ---------------------------------------------------------------------------

/-- A schema is the reference, or it describes a list of items that are. It does not tell an origin
of its own. -/
inductive PointsTo (ref : String) : Bool → Value → Prop
  | itself {node : Value} (hOrigin : node.field? originKey = none) (hRef : openRef? node = some ref) :
      PointsTo ref false node
  | items {node items : Value} (hOrigin : node.field? originKey = none) (hList : ListOf node items)
      (hInner : ∀ v, node.field? refKey = some v → openRef? v = none)
      (hItemsOrigin : items.field? originKey = none) (hRef : openRef? items = some ref) :
      PointsTo ref true node

/-- The response that holds objects of a class, one or a list of them. -/
def responseOf (list : Bool) (className : String) : Response :=
  if list then .array className none none else .object className none none

/-- The request of the endpoint decodes its response into the class: the unit imports the class and
makes objects of it, under the name that the import gives it. -/
def Decodes (settings : Settings) (g : Generated) (e : Endpoint) (list : Bool)
    (className : String) : Prop :=
  ∃ resolved r, g.names.get? e.key = some resolved ∧
    Request.ofEndpoint settings e resolved g.registry = .ok r ∧
    Request.dtoImport settings className r.className ∈ r.imports ∧
    r.decoder = some (if list then .array (Request.localDto className r.className) none
      else .object (Request.localDto className r.className) none)

theorem decoder_of_request_ok {settings : Settings} {e : Endpoint} {resolved : ResolvedName}
    {registry : Registry} {r : Request}
    (h : Request.ofEndpoint settings e resolved registry = .ok r) :
    r.decoder = e.response.map (Request.decoderOf r.className) := by
  obtain ⟨arguments, -, h⟩ := exists_of_bind_ok h
  obtain ⟨url, -, h⟩ := exists_of_bind_ok h
  cases h
  rfl

/-- What the endpoint's response holds is what its request decodes. -/
theorem decodes_of_response {settings : Settings} {document : Value} {g : Generated} {e : Endpoint}
    {list : Bool} {className : String} (h : (generate settings document).outcome = .ok g)
    (he : e ∈ g.specification.endpoints) (hResponse : e.response = some (responseOf list className))
    (hClass : className ≠ "") : Decodes settings g e list className := by
  obtain ⟨_, -, hRegistry, -, -, hUnits⟩ := exists_of_generate_ok h
  obtain ⟨members, _, hClosed⟩ := units_closed hRegistry hUnits
  rw [← hClosed.endpoints] at he
  obtain ⟨⟨e, resolved⟩, hMember, rfl⟩ := List.mem_map.mp he
  obtain ⟨r, hRequest, hImports, -⟩ := hClosed.requests _ hMember
  refine ⟨resolved, r, hClosed.named _ hMember, hRequest, ?_, ?_⟩
  · have hDecoded : decodedClass? e = some className := by
      have hDto : (responseOf list className).dto? = some className := by
        cases list <;> rfl
      rw [decodedClass?, hResponse, Option.bind_some, hDto, Option.filter_some,
        if_pos (bne_iff_ne.mpr hClass)]
    rw [hImports, hDecoded]
    simp [Request.importsOf]
  · rw [decoder_of_request_ok hRequest, hResponse]
    cases list <;> rfl

section Referenced

variable {settings : Settings} {document expanded operation node schema code own : Value}
  {s : Specification} {path method key : String} {m : Method} {list : Bool} {memory : Memory}

/-- A reference to a component schema that is a mapping becomes a mapping wherever it stands. -/
theorem isMapping_of_pointer {nested : Bool} (hKeyed : document.wellKeyed = true)
    (hShared : Shared document memory) (hDocument : Draws document memory false document expanded)
    (hOwn : expanded.at? [.str "components", .str "schemas", .str key] = some own)
    (hOwnMapping : own.isMapping = true)
    (hTarget : ∀ target, resolve document (schemaPointer ++ Pointer.encodeKey key) = .ok target →
      target.isMapping = true)
    (hRef : openRef? node = some (schemaPointer ++ Pointer.encodeKey key))
    (hNode : Draws document memory nested node schema) : schema.isMapping = true := by
  cases hResolves : resolve document (schemaPointer ++ Pointer.encodeKey key) with
  | error fault =>
    -- nothing is remembered for a reference that leads nowhere
    by_contra hOther
    obtain ⟨_, hRemembered, -⟩ := hNode.exists_remembered hRef (Bool.not_eq_true _ ▸ hOther)
    obtain ⟨_, _, hFound, -⟩ := hShared _ _ hRemembered
    rw [hResolves] at hFound
    cases hFound
  | ok target =>
    have hAt : document.at? [.str "components", .str "schemas", .str key] = some target := by
      rw [← Pointer.pointerTo_schema, Pointer.resolve_pointerTo (List.cons_ne_nil _ _)] at hResolves
      exact Pointer.at?_of_follow? hResolves
    have hMapping := hTarget target hResolves
    have hSteady : ∀ k ∈ [Value.str "components", .str "schemas", .str key], Steady k := by
      simp [steady_str]
    have hOwnDraws := hDocument.at? hKeyed hAt hMapping hSteady (.refl document) hOwn
    exact Draws.isMapping hShared hResolves hMapping hOwnDraws hOwnMapping hRef hNode

/-- The operation has a response of the class that is named after the pointer. -/
theorem responds_of_pointsTo (hKeyed : document.wellKeyed = true)
    (hExpanded : (expand document).outcome = .ok expanded)
    (hSpecification : (Specification.ofDocument settings expanded).outcome = .ok s)
    (hOwn : (Value.str key, own) ∈ s.components.schemas) (hOwnMapping : own.isMapping = true)
    (hName : Pointer.encodeKey key ≠ "")
    (hTarget : ∀ target, resolve document (schemaPointer ++ Pointer.encodeKey key) = .ok target →
      target.isMapping = true)
    (hMethod : method ∈ Endpoint.operationMethods) (hMethodName : Method.ofName? method = some m)
    (hNode : Leads document document (operationPlace path method ++ schemaKeys code) node)
    (hOperation : expanded.at? (operationPlace path method) = some operation)
    (hCode : SuccessCode operation code) (hSchema : operation.at? (schemaKeys code) = some schema)
    (hPoints : PointsTo (schemaPointer ++ Pointer.encodeKey key) list node) :
    Responds s m path (responseOf list (dtoClass (Pointer.encodeKey key))) := by
  have hExpandedKeyed := expand_wellKeyed hKeyed hExpanded
  have hOwnPlace := at?_of_mem_schemas hExpandedKeyed hSpecification hOwn
  have hPlace := at?_schemaPlace hOperation hSchema
  have hSteady : ∀ k ∈ operationPlace path method ++ schemaKeys code, Steady k :=
    steady_schemaPlace hCode
  have hWithin := hNode.within (.refl document)
  obtain ⟨memory, hShared, hDocument⟩ := expand_draws hExpanded
  obtain ⟨nested, hDraws⟩ := hNode.draws hKeyed hShared getLast?_schemaPlace hSteady (.refl document)
    hDocument hPlace
  obtain ⟨inside, place, hExpands⟩ := hNode.expands hKeyed getLast?_schemaPlace hSteady
    (.refl document) (hExpanded ▸ expand_follows document) hPlace
  cases hPoints with
  | itself hOrigin hRef =>
    have hMapping := isMapping_of_pointer hKeyed hShared hDocument hOwnPlace hOwnMapping hTarget hRef
      hDraws
    exact responds_of_named hExpandedKeyed hSpecification hMethod hMethodName hOperation hCode hSchema
      hMapping (referenceName?_of_pointer hOrigin hRef hExpands hMapping) hName
  | @items _ items hOrigin hList hInner hItemsOrigin hRef =>
    obtain ⟨⟨place', item, hList', hItemsExpand⟩, hKept⟩ := hList.expands hInner hExpands
    have hItemDraws : ∃ nested', Draws document memory nested' items item := by
      cases node with
      | map entries =>
        cases schema with
        | map es =>
          have hPlace' : (Value.map es).at? [.str "items"] = some item :=
            (at?_map hList'.items).mpr rfl
          obtain ⟨w, hItem, hSame⟩ := hDraws.member (wellKeyed_map.mp (hWithin.wellKeyed hKeyed)).1
            (steady_str "items") hList.items (Or.inr (by simp [refKey])) hPlace'
          cases hSame
          exact ⟨nested, hItem⟩
        | _ => cases hList'.items
      | _ => cases hList.items
    obtain ⟨nested', hItem⟩ := hItemDraws
    have hMapping := isMapping_of_pointer hKeyed hShared hDocument hOwnPlace hOwnMapping hTarget hRef
      hItem
    exact responds_of_namedItems hExpandedKeyed hSpecification hMethod hMethodName hOperation hCode
      hSchema hList' (hKept hOrigin) hMapping
      (referenceName?_of_pointer hItemsOrigin hRef hItemsExpand hMapping) hName

end Referenced

theorem isMapping_of_describesObject {schema : Value} (h : describesObject schema = true) :
    schema.isMapping = true := by
  cases schema with
  | map _ => rfl
  | _ => simp [describesObject, Response.hasType, field?] at h

/-- **The class that a response decodes into.** Take a component schema that describes objects and
shares the name of its class with no other one, and an operation whose success schema is the pointer
for its key, or a list of items that are. When a client is generated, the class of the component is
made of this schema. The request of the operation decodes its response into the class that is named
after the pointer as it is written. The two are the same class if and only if there is no tilde and no
slash in the key. -/
theorem decoded_class_of_reference {settings : Settings}
    {document expanded operation node schema code own : Value} {g : Generated}
    {path method key : String} {m : Method} {list : Bool} (hKeyed : document.wellKeyed = true)
    (hExpanded : (expand document).outcome = .ok expanded)
    (hGenerated : (generate settings expanded).outcome = .ok g)
    (hOwn : (Value.str key, own) ∈ g.specification.components.schemas)
    (hObject : describesObject own = true) (hKey : key ≠ "")
    (hAlone : ∀ other schema, (Value.str other, schema) ∈ g.specification.components.schemas →
      describesObject schema = true → dtoClass other = dtoClass key → other = key)
    (hTarget : ∀ target, resolve document (schemaPointer ++ Pointer.encodeKey key) = .ok target →
      target.isMapping = true)
    (hMethod : method ∈ Endpoint.operationMethods) (hMethodName : Method.ofName? method = some m)
    (hNode : Leads document document (operationPlace path method ++ schemaKeys code) node)
    (hOperation : expanded.at? (operationPlace path method) = some operation)
    (hCode : SuccessCode operation code) (hSchema : operation.at? (schemaKeys code) = some schema)
    (hPoints : PointsTo (schemaPointer ++ Pointer.encodeKey key) list node) :
    ∃ e ∈ g.specification.endpoints, e.method = m ∧ e.path = path ∧
      (∀ f ∈ g.specification.endpoints, f.key = e.key → f = e) ∧
      Decodes settings g e list (dtoClass (Pointer.encodeKey key)) ∧
      (∃ dtos, (dtosOf g.specification).outcome = .ok dtos ∧
        dtos.get? (dtoClass key) = some own) ∧
      (dtoClass (Pointer.encodeKey key) = dtoClass key ↔ '~' ∉ key.toList ∧ '/' ∉ key.toList) := by
  obtain ⟨_, hSpecification, hRegistry, -, -, hUnits⟩ := exists_of_generate_ok hGenerated
  obtain ⟨_, dtos, hClosed⟩ := units_closed hRegistry hUnits
  obtain ⟨e, he, hOwnMethod, hPath, hResponse, hUnique⟩ :=
    responds_of_pointsTo hKeyed hExpanded hSpecification hOwn
      (isMapping_of_describesObject hObject) (Pointer.encodeKey_ne_empty hKey) hTarget hMethod
      hMethodName hNode hOperation hCode hSchema hPoints
  have hClass : dtoClass (Pointer.encodeKey key) ≠ "" := by
    intro hEmpty
    exact (isIdentifier_dtoClass (Pointer.encodeKey key)).nonempty (by rw [hEmpty]; rfl)
  refine ⟨e, he, hOwnMethod, hPath, hUnique, decodes_of_response hGenerated he hResponse hClass,
    ⟨dtos, hClosed.described, ?_⟩, dtoClass_encodeKey_iff⟩
  refine get?_dtosOf hClosed.described hOwn hObject fun other schema hOther hObject' hSame => ?_
  -- the other schema has the same key, and only one thing stands at a place
  obtain rfl := hAlone other schema hOther hObject' hSame
  have hExpandedKeyed := expand_wellKeyed hKeyed hExpanded
  have hBoth := (at?_of_mem_schemas hExpandedKeyed hSpecification hOther).symm.trans
    (at?_of_mem_schemas hExpandedKeyed hSpecification hOwn)
  exact Option.some.inj hBoth

-- ---------------------------------------------------------------------------
-- A key with a slash
-- ---------------------------------------------------------------------------

/-- A schema of objects that states nothing else. -/
def plainObject : Entries := [(.str "type", .str "object")]

/-- A document with a component schema at a key with a slash, and a response of the given schema. -/
def slashedDocument (answer : Value) : Value :=
  .map [(.str "info", .map []),
    (.str "paths", .map [(.str "/x", .map [(.str "get", asking (.map (answers answer)))])]),
    (.str "components", .map [(.str "schemas", .map [(.str "a/b", .map plainObject)])])]

/-- A reference to this schema. -/
def toSlashed : Value := .map [(.str refKey, .str "#/components/schemas/a~1b")]

/-- The same reference expanded. -/
def expandedSlashed : Value :=
  .map (plainObject ++ [(.str originKey, .str "#/components/schemas/a~1b")])

theorem expand_slashedDocument : (expand (slashedDocument toSlashed)).outcome =
    .ok (slashedDocument expandedSlashed) := by
  cbv

/-- A client is generated, and these are the schemas, the decoded classes and the data classes. -/
theorem generate_slashedDocument :
    ∃ g, (generate {} (slashedDocument expandedSlashed)).outcome = .ok g ∧
      g.specification.components.schemas = [(.str "a/b", .map plainObject)] ∧
      g.specification.endpoints.map decodedClass? = [some "a1b"] ∧
      (dtosOf g.specification).outcome = .ok [("a1b", .emptyMap), ("ab", .map plainObject)] := by
  have hRun : ((Specification.ofDocument {} (slashedDocument expandedSlashed)).outcome.toOption.map fun s =>
      (s.components.schemas, s.endpoints.map decodedClass?, (dtosOf s).outcome)) =
        some ([(.str "a/b", .map plainObject)], [some "a1b"],
          .ok [("a1b", .emptyMap), ("ab", .map plainObject)]) := by
    cbv
  obtain ⟨⟨s, members, dtos⟩, hPasses⟩ :
      ∃ found, passes {} (slashedDocument expandedSlashed) = .ok found :=
    exists_of_toOption_isSome (by decide +kernel)
  obtain ⟨hSpecification, hSorted⟩ := of_passes_ok hPasses
  rw [hSpecification] at hRun
  obtain ⟨hSchemas, hRest⟩ := Prod.mk.inj (Option.some.inj hRun)
  obtain ⟨hDecoded, hDtos⟩ := Prod.mk.inj hRest
  cases hSorted.symm.trans hDtos
  obtain ⟨g, hGenerated, rfl, -⟩ := exists_generate_of_passes hPasses (by decide +kernel)
  exact ⟨g, hGenerated, hSchemas, hDecoded, hDtos⟩

/-- The response decodes into the class of the pointer. -/
theorem decodes_slashedDocument :
    ∃ g e dtos, (generate {} (slashedDocument expandedSlashed)).outcome = .ok g ∧
      e ∈ g.specification.endpoints ∧ e.key = "GET /x" ∧ Decodes {} g e false "a1b" ∧
      (dtosOf g.specification).outcome = .ok dtos ∧ dtos.get? "ab" = some (.map plainObject) := by
  let before := slashedDocument toSlashed
  let after := slashedDocument expandedSlashed
  have hKeyed : before.wellKeyed = true := by decide +kernel
  have hOrigin : toSlashed.field? originKey = none := by cbv
  obtain ⟨g, hGenerated, hSchemas, -⟩ := generate_slashedDocument
  have hAlone : ∀ other schema, (Value.str other, schema) ∈ g.specification.components.schemas →
      other = "a/b" := by
    intro other schema hOther
    rw [hSchemas, List.mem_singleton] at hOther
    cases hOther
    rfl
  have hRef : openRef? toSlashed = some (schemaPointer ++ Pointer.encodeKey "a/b") := by decide +kernel
  have hTarget : resolve before (schemaPointer ++ Pointer.encodeKey "a/b") = .ok (.map plainObject) := by
    cbv
  have hNode : before.at? (operationPlace "/x" "get" ++ schemaKeys (.str "200")) = some toSlashed := by
    cbv
  have hKeys : ∀ k ∈ operationPlace "/x" "get" ++ schemaKeys (.str "200"), k ≠ .str refKey := by
    simp [operationPlace, schemaKeys, refKey]
  have hOperation : after.at? (operationPlace "/x" "get") =
      some (asking (.map (answers expandedSlashed))) := by
    cbv
  have hSchema : (asking (.map (answers expandedSlashed))).at? (schemaKeys (.str "200")) =
      some expandedSlashed := by
    cbv
  obtain ⟨e, he, hMethod, hPath, -, hDecodes, ⟨dtos, hDtos, hOwn⟩, -⟩ :=
    decoded_class_of_reference (m := .get) hKeyed expand_slashedDocument hGenerated
      (hSchemas ▸ List.mem_singleton_self _) (by decide +kernel) (by decide)
      (fun other schema hOther _ _ => hAlone other schema hOther)
      (fun target hFound => by
        cases hTarget.symm.trans hFound
        rfl)
      (by decide) (by decide) (leads_of_at? hKeys hNode) hOperation .text hSchema (.itself hOrigin hRef)
  have hKey : e.key = "GET /x" := by
    rw [Endpoint.key, hMethod, hPath]
    decide
  exact ⟨g, e, dtos, hGenerated, he, hKey, hDecodes, hDtos, hOwn⟩

/-- There is a class for the schema, and the response is decoded into another one, which is empty. -/
theorem decodedClass_slashedDocument :
    (expand (slashedDocument toSlashed)).outcome = .ok (slashedDocument expandedSlashed) ∧
      resolve (slashedDocument toSlashed) "#/components/schemas/a~1b" = .ok (.map plainObject) ∧
      dtoClass "a/b" = "ab" ∧
      ∃ g, (generate {} (slashedDocument expandedSlashed)).outcome = .ok g ∧
        g.specification.endpoints.map decodedClass? = [some "a1b"] ∧
        (dtosOf g.specification).outcome = .ok [("a1b", .emptyMap), ("ab", .map plainObject)] := by
  obtain ⟨g, hGenerated, -, hRest⟩ := generate_slashedDocument
  exact ⟨expand_slashedDocument, by cbv, by decide, g, hGenerated, hRest⟩

end ClientGen.Unit
