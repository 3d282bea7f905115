import ClientGen.Api.Specification
import ClientGen.Proofs.Api.Roles
import ClientGen.Proofs.Outcome
import ClientGen.Proofs.Sorting

/-!
# Endpoints depend on what is read

`Role.read` leaves out of a document what is not looked at on the way to its endpoints.
Here this is borne out, pass by pass: each pass over a value makes the same of it and of
what is read of it, with the same remarks. The component schemas and security schemes do
not go into the endpoints, but their tables have to be in order; so there only the faults
are the same.

Main results:

* `ofOperation_read` / `ofPathItem_read` / `endpointsOf_read` — operations, path items and documents
  have the same endpoints after reading.
* `endpoints_eq_of_read_eq` — documents of which the same is read have the same endpoints.
-/

namespace ClientGen.Api

open ClientGen.Document ClientGen.Document.Value ClientGen.Schema

variable {settings : Settings}

-- ---------------------------------------------------------------------------
-- Parameters
-- ---------------------------------------------------------------------------

theorem declaredParameter_read (name raw : Value) :
    declaredParameter name (Role.parameter.read raw) = declaredParameter name raw := by
  unfold declaredParameter
  rw [Role.field?_read_plain (by simp), Role.field?_read_plain (by simp),
    Role.field?_read_plain (by simp)]

theorem declare_read (location : String) (d : Declared) (raw : Value) :
    Declared.declare location d (Role.parameter.read raw) = Declared.declare location d raw := by
  unfold Declared.declare
  rw [Role.field?_read_plain (by simp), Role.field?_read_plain (by simp)]
  simp only [declaredParameter_read]

theorem declaredParameters_read (above own : List Value) (location : String) :
    declaredParameters (Role.parameterList.read (.list above)) (Role.parameterList.read (.list own))
        location =
      declaredParameters (.list above) (.list own) location := by
  have hItems : ∀ items : List Value, (Role.parameterList.read (.list items)).elements =
      .ok (items.map Role.parameter.read) := by
    intro items
    rw [Role.read_list (by decide)]
    rfl
  rw [declaredParameters, declaredParameters, hItems, hItems]
  show List.foldlM _ _ _ = List.foldlM _ _ _
  rw [← List.map_append, List.foldlM_map]
  simp only [declare_read]

/-- A `parameters` member is a list or a fault. -/
theorem parameterList_cases (o : Option Value) (label : String) :
    (∃ items, Endpoint.parameterList o label = .ok (.list items) ∧
        Endpoint.parameterList (o.map Role.parameterList.read) label =
          .ok (Role.parameterList.read (.list items))) ∨
      ∃ fault, Endpoint.parameterList o label = .error fault ∧
        Endpoint.parameterList (o.map Role.parameterList.read) label = .error fault := by
  cases o with
  | none => exact Or.inl ⟨[], rfl, rfl⟩
  | some v =>
    cases v with
    | null => exact Or.inl ⟨[], rfl, rfl⟩
    | list items => exact Or.inl ⟨items, rfl, rfl⟩
    | _ => exact Or.inr ⟨_, rfl, rfl⟩

-- ---------------------------------------------------------------------------
-- Bodies and responses
-- ---------------------------------------------------------------------------

theorem requestBody_read (body : Value) (location : String) :
    requestBody (Role.requestBody.read body) location = requestBody body location := by
  rw [requestBody, requestBody, Role.isMapping_read (by decide), Role.field?_read_plain (by simp)]

theorem successSchema?_read (operation : Value) :
    Response.successSchema? (Role.operation.read operation) = Response.successSchema? operation := by
  have hResponses : (.str "responses", .responses) ∈ Role.operation.members := by simp
  have hText : (.str "200", .response) ∈ Role.responses.members := by simp
  have hNumber : (.int 200, .response) ∈ Role.responses.members := by simp
  have hContent : (.str "content", .plain) ∈ Role.response.members := by simp
  rw [Response.successSchema?, Response.successSchema?, Role.member_read hResponses]
  cases operation.member "responses" with
  | error _ => rfl
  | ok o =>
    show (Value.orElse (o.map Role.responses.read) .emptyMap).entries >>= _ =
      (Value.orElse o .emptyMap).entries >>= _
    rw [Role.orElse_read (by decide) rfl, Role.entries_read (by decide)]
    cases (Value.orElse o .emptyMap).entries with
    | error _ => rfl
    | ok responses =>
      dsimp only [Except.map, ok_bind]
      rw [Role.get?_readMembers hText, Role.get?_readMembers hNumber, ← Option.map_or]
      cases (Dictionary.get? responses (.str "200")).or (Dictionary.get? responses (.int 200)) with
      | none => rfl
      | some success =>
        rw [Option.map_some]
        cases success with
        | map entries =>
          rw [Role.read_map (by decide)]
          dsimp only
          rw [Role.get?_readMembers hContent, Role.map_read_plain]
        | _ => rfl

-- ---------------------------------------------------------------------------
-- Operations
-- ---------------------------------------------------------------------------

theorem tagsOf_read (operation : Value) :
    Endpoint.tagsOf (Role.operation.read operation) = Endpoint.tagsOf operation := by
  have hTags : (.str "tags", .plain) ∈ Role.operation.members := by simp
  rw [Endpoint.tagsOf, Endpoint.tagsOf, Role.member_read hTags]
  cases operation.member "tags" with
  | error _ => rfl
  | ok o => simp [Except.map, Role.map_read_plain]

theorem givenName_read (operation : Value) :
    Endpoint.givenName (Role.operation.read operation) = Endpoint.givenName operation := by
  rw [Endpoint.givenName, Endpoint.givenName, Role.field?_read_plain (by simp),
    Role.field?_read_plain (by simp)]

/-- The endpoint of an operation depends on what is read of it and of the parameters of its path
item. -/
theorem ofOperation_read (method : String) (path operation : Value) (above : List Value) :
    Endpoint.ofOperation settings method path (Role.operation.read operation)
        (Role.parameterList.read (.list above)) =
      Endpoint.ofOperation settings method path operation (.list above) := by
  have hParameters : (.str "parameters", .parameterList) ∈ Role.operation.members := by simp
  have hBody : (.str "requestBody", .requestBody) ∈ Role.operation.members := by simp
  have hHeld : (((operation.field? "requestBody").map Role.requestBody.read).getD .null) =
      Role.requestBody.read ((operation.field? "requestBody").getD .null) := by
    cases operation.field? "requestBody" <;> rfl
  rw [Endpoint.ofOperation, Endpoint.ofOperation]
  rw [tagsOf_read, givenName_read, successSchema?_read, Role.field?_read hParameters,
    Role.field?_read hBody, hHeld, Role.field?_read_plain (by simp)]
  simp only [requestBody_read]
  rcases parameterList_cases (operation.field? "parameters")
      (.ofList (Text.upper method.toList) ++ " " ++ path.display) with
    ⟨own, hOwn, hRead⟩ | ⟨fault, hOwn, hRead⟩
  · rw [hOwn, hRead]
    simp only [Journal.lift_ok_bind, declaredParameters_read]
  · rw [hOwn, hRead]
    simp only [Journal.lift_error_bind]

-- ---------------------------------------------------------------------------
-- Path items
-- ---------------------------------------------------------------------------

/-- The operations that are read of a path item are what is read of its operations. -/
theorem operations_read (item : Value) :
    (Endpoint.operationMethods.filterMap fun method =>
        ((Role.pathItem.read item).field? method).map fun operation => (method, operation)) =
      (Endpoint.operationMethods.filterMap fun method =>
        (item.field? method).map fun operation => (method, operation)).map
          fun (method, operation) => (method, Role.operation.read operation) := by
  rw [List.map_filterMap]
  refine List.filterMap_congr ?_
  intro method hMethod
  have hMem : (.str method, .operation) ∈ Role.pathItem.members :=
    List.mem_cons_of_mem _ (List.mem_map_of_mem hMethod)
  rw [Role.field?_read hMem, Option.map_map, Option.map_map]
  rfl

/-- **Path items are read by their members.** -/
theorem ofPathItem_read (path item : Value) :
    Endpoint.ofPathItem settings path (Role.pathItem.read item) =
      Endpoint.ofPathItem settings path item := by
  have hParameters : (.str "parameters", .parameterList) ∈ Role.pathItem.members := by simp
  rw [Endpoint.ofPathItem, Endpoint.ofPathItem]
  rw [Role.isMapping_read (by decide), operations_read, Role.field?_read hParameters]
  rcases parameterList_cases (item.field? "parameters") path.display with
    ⟨above, hAbove, hRead⟩ | ⟨fault, hAbove, hRead⟩
  · rw [hAbove, hRead]
    have hOperation : ∀ v, (Role.operation.read v).isMapping = v.isMapping :=
      Role.isMapping_read (by decide)
    simp only [Journal.lift_ok_bind, List.mapM_map, Function.comp_def, hOperation, ofOperation_read]
  · rw [hAbove, hRead]
    simp only [Journal.lift_error_bind]

-- ---------------------------------------------------------------------------
-- Documents
-- ---------------------------------------------------------------------------

/-- The members of a table or of the paths are sorted as they were before reading. -/
theorem sortOn?_readMembers {r : Role} (hShared : r.shared = false) (es : Entries) :
    Value.sortOn? (·.1) (r.readMembers es) = (Value.sortOn? (·.1) es).map r.readMembers := by
  have hMap : r.readMembers = List.map fun e => (e.1, (r.member e.1).read e.2) :=
    funext (Role.readMembers_eq_map hShared)
  rw [hMap, sortOn?_map]

theorem endpointsOf_read (document : Value) :
    Specification.endpointsOf settings (Role.document.read document) =
      Specification.endpointsOf settings document := by
  have hPaths : (.str "paths", .paths) ∈ Role.document.members := by simp
  have hItem : ∀ k, Role.paths.member k = .pathItem := fun _ => rfl
  rw [Specification.endpointsOf, Specification.endpointsOf, Role.member_read hPaths]
  cases document.member "paths" with
  | error _ => rfl
  | ok o =>
    dsimp only [Except.map]
    rw [Journal.lift_ok_bind, Journal.lift_ok_bind, Role.orElse_read (by decide) rfl,
      Role.entries_read (by decide)]
    cases (Value.orElse o .emptyMap).entries with
    | error _ => rfl
    | ok paths =>
      dsimp only [Except.map]
      rw [Journal.lift_ok_bind, Journal.lift_ok_bind, sortOn?_readMembers rfl]
      cases Value.sortOn? (·.1) paths with
      | none => rfl
      | some sorted =>
        dsimp only [Option.map]
        rw [Role.readMembers_eq_map rfl, List.mapM_map]
        simp only [Function.comp_def, hItem, ofPathItem_read]

/-- Components have the same faults after reading. -/
theorem ofValue_read (components : Value) :
    (Components.ofValue (Role.components.read components)).map (fun _ => ()) =
      (Components.ofValue components).map (fun _ => ()) := by
  have hSorted : ∀ key, (.str key, .table) ∈ Role.components.members →
      Components.sortedMember (Role.components.read components) key =
        (Components.sortedMember components key).map Role.table.readMembers := by
    intro key hKey
    rw [Components.sortedMember, Components.sortedMember, Role.field?_read hKey,
      Role.orElse_read (by decide) rfl, Role.entries_read (by decide)]
    cases (Value.orElse (components.field? key) .emptyMap).entries with
    | error _ => rfl
    | ok entries =>
      dsimp only [Except.map, ok_bind]
      rw [sortOn?_readMembers rfl]
      cases Value.sortOn? (·.1) entries with
      | none => rfl
      | some sorted => rfl
  rw [Components.ofValue, Components.ofValue, Role.isMapping_read (by decide),
    hSorted _ (by simp), hSorted _ (by simp)]
  split
  · rfl
  · cases Components.sortedMember components "securitySchemes" with
    | error _ => rfl
    | ok schemes =>
      cases Components.sortedMember components "schemas" with
      | error _ => rfl
      | ok schemas => rfl

/-- **Endpoints depend on what is read.** A document and what is read of it have the same endpoints, or
none because of the same fault. -/
theorem endpoints_read (document : Value) :
    Specification.endpoints <$>
        (Specification.ofDocument settings (Role.document.read document)).outcome =
      Specification.endpoints <$> (Specification.ofDocument settings document).outcome := by
  have hInfo : (Role.document.read document).member "info" = document.member "info" := by
    rw [Role.member_read (by simp : (.str "info", .plain) ∈ Role.document.members)]
    cases document.member "info" with
    | error _ => rfl
    | ok o => exact congrArg Except.ok (Role.map_read_plain o)
  have hComponents : ((Role.document.read document).field? "components").getD .null =
      Role.components.read ((document.field? "components").getD .null) := by
    rw [Role.field?_read (by simp : (.str "components", .components) ∈ Role.document.members)]
    cases document.field? "components" <;> rfl
  have hFaults := ofValue_read ((document.field? "components").getD .null)
  rw [Specification.ofDocument, Specification.ofDocument]
  have hServers : (Role.document.read document).field? "servers" = document.field? "servers" :=
    Role.field?_read_plain (by simp) document
  have hSecurity : (Role.document.read document).field? "security" = document.field? "security" :=
    Role.field?_read_plain (by simp) document
  simp only [hInfo, hServers, hSecurity, hComponents, endpointsOf_read, Journal.outcome_bind,
    Journal.outcome_lift]
  simp only [map_bind]
  -- up to the components both documents take the same steps
  refine bind_congr fun info => bind_congr fun name => bind_congr fun description =>
    bind_congr fun baseUrl => bind_congr fun security => ?_
  revert hFaults
  cases Components.ofValue (Role.components.read ((document.field? "components").getD .null)) with
  | error _ =>
    cases Components.ofValue ((document.field? "components").getD .null) with
    | error _ =>
      intro hFaults
      rw [Except.error.inj hFaults]
    | ok _ => nofun
  | ok _ =>
    cases Components.ofValue ((document.field? "components").getD .null) with
    | error _ => nofun
    | ok _ => exact fun _ => rfl

/-- Documents of which the same is read have the same endpoints. -/
theorem endpoints_eq_of_read_eq {v w : Value} (h : Role.document.read w = Role.document.read v) :
    Specification.endpoints <$> (Specification.ofDocument settings w).outcome =
      Specification.endpoints <$> (Specification.ofDocument settings v).outcome := by
  rw [← endpoints_read w, h, endpoints_read]

end ClientGen.Api
