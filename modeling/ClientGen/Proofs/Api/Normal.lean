import ClientGen.Api.Specification
import ClientGen.Proofs.Api.Operations
import ClientGen.Proofs.Document.Members
import ClientGen.Proofs.Schema.Siblings
import ClientGen.Proofs.Text.Separators

/-!
# The normal form of a document

Three things hold of every specification that is made from a document, and all
later passes live on them: no two endpoints have the same key, no two component
schemas have the same name, and parameters side by side have different names.

An endpoint's key is its method and its path. The endpoints of one path item have
different methods, because each name of a method is looked up once, and those of
different items have different paths, because these are the keys of a mapping.

Main results:

* `Endpoint.key_inj` — method and path are read off the key.
* `ofDocument_normal` — the specification of a document is `Normal`.
* `exists_of_endpointsOf` / `exists_of_ofPathItem` — an endpoint is made of each operation.
-/

namespace ClientGen.Api

open ClientGen.Document ClientGen.Document.Value ClientGen.Schema ClientGen.Text

/-- What every specification made from a document satisfies. -/
structure Specification.Normal (s : Specification) : Prop where
  keys       : (s.endpoints.map Endpoint.key).Nodup
  components : TextsApart s.components.schemas.keys
  parameters : ∀ e ∈ s.endpoints, ∀ slot, AllApart (e.parameters slot)

-- ---------------------------------------------------------------------------
-- Keys of endpoints
-- ---------------------------------------------------------------------------

/-- No method has a blank in its name. -/
theorem Method.blank_not_mem_name (m : Method) : ' ' ∉ m.name.toList := by
  cases m <;> decide

theorem Method.name_inj {m n : Method} (h : m.name = n.name) : m = n := by
  cases m <;> cases n <;> first | rfl | exact absurd h (by decide)

/-- Endpoints with the same key have the same method and the same path. -/
theorem Endpoint.key_inj {e f : Endpoint} (h : e.key = f.key) :
    e.method = f.method ∧ e.path = f.path := by
  have hChars := congrArg String.toList h
  simp only [Endpoint.key, String.toList_append] at hChars
  have hBlank : " ".toList = [' '] := rfl
  rw [hBlank, List.append_assoc, List.append_assoc] at hChars
  obtain ⟨hMethod, hPath⟩ :=
    append_cons_inj (Method.blank_not_mem_name _) (Method.blank_not_mem_name _) hChars
  exact ⟨Method.name_inj (String.toList_inj.mp hMethod), String.toList_inj.mp hPath⟩

-- ---------------------------------------------------------------------------
-- Operations and path items
-- ---------------------------------------------------------------------------

theorem addPlaceholder_apart {label name : String} {ps qs : List Parameter} (hps : AllApart ps)
    (h : (Endpoint.addPlaceholder label ps name).outcome = .ok qs) : AllApart qs := by
  unfold Endpoint.addPlaceholder at h
  split at h
  · cases h
    exact hps
  · rename_i hNew
    cases h
    refine hps.snoc (Apart.of_no_properties rfl) ?_
    show Parameter.named ps (.str name) = false
    simpa using hNew

/-- The endpoint of an operation has the method and the path it was made for. -/
theorem ofOperation_normal {settings : Settings} {method : String} {path operation pathLevel : Value}
    {e : Endpoint} (hOperation : operation.wellKeyed = true)
    (h : (Endpoint.ofOperation settings method path operation pathLevel).outcome = .ok e) :
    Method.ofName? method = some e.method ∧ path = .str e.path ∧
      ∀ slot, AllApart (e.parameters slot) := by
  obtain ⟨d, hRead⟩ := exists_isReadFrom h
  have hApart := declaredParameters_apart hRead.declared
  refine ⟨hRead.method, hRead.path, ?_⟩
  intro slot
  cases slot with
  | path =>
    have hPlaceholders := hRead.pathParameters
    rw [Journal.outcome_foldlM] at hPlaceholders
    refine foldlM_ok_induction AllApart (hApart .path) ?_ hPlaceholders
    intro ps placeholder qs _ hps hStep
    exact addPlaceholder_apart hps hStep
  | query =>
    show AllApart e.queryParameters
    rw [hRead.queryParameters]
    exact hApart .query
  | body =>
    refine requestBody_apart ?_ hRead.body
    cases hField : operation.field? "requestBody" with
    | none => rfl
    | some held => exact field?_wellKeyed hOperation hField
  | header =>
    show AllApart e.headerParameters
    rw [hRead.headerParameters]
    exact hApart .header

/-- The names of operations stand for different methods. -/
theorem operationMethods_apart :
    Endpoint.operationMethods.Pairwise fun m n => Method.ofName? m ≠ Method.ofName? n := by
  decide +kernel

/-- The endpoints of a path item have its path and different methods. -/
theorem ofPathItem_normal {settings : Settings} {path item : Value} {es : List Endpoint}
    (hItem : item.wellKeyed = true) (h : (Endpoint.ofPathItem settings path item).outcome = .ok es) :
    es.Pairwise (fun e f => e.method ≠ f.method) ∧
      ∀ e ∈ es, path = .str e.path ∧ ∀ slot, AllApart (e.parameters slot) := by
  unfold Endpoint.ofPathItem at h
  dsimp only at h
  split at h
  · obtain ⟨_, hThrow, -⟩ := Journal.exists_of_bind_ok h
    cases hThrow
  · obtain ⟨pathLevel, -, h⟩ := Journal.exists_of_bind_ok h
    rw [Journal.outcome_mapM] at h
    have hEach : ∀ entry ∈ Endpoint.operationMethods.filterMap fun method =>
        (item.field? method).map fun operation => (method, operation), ∀ e : Endpoint,
        (if (!entry.2.isMapping) = true then do
            throw (.defect (.operationNotAMapping
              (.ofList (Text.upper entry.1.toList) ++ " " ++ path.display)))
            Endpoint.ofOperation settings entry.1 path entry.2 pathLevel
          else Endpoint.ofOperation settings entry.1 path entry.2 pathLevel).outcome = .ok e →
        Method.ofName? entry.1 = some e.method ∧ path = .str e.path ∧
          ∀ slot, AllApart (e.parameters slot) := by
      intro entry hMem e he
      obtain ⟨method, -, hEntry⟩ := List.mem_filterMap.mp hMem
      obtain ⟨operation, hField, rfl⟩ := Option.map_eq_some_iff.mp hEntry
      split at he
      · cases he
      · exact ofOperation_normal (field?_wellKeyed hItem hField) he
    constructor
    · refine pairwise_of_mapM_ok h (R := fun a b => Method.ofName? a.1 ≠ Method.ofName? b.1) ?_ ?_
      · refine List.Pairwise.filterMap _ ?_ operationMethods_apart
        intro m n hApart a ha b hb
        obtain ⟨_, -, rfl⟩ := Option.map_eq_some_iff.mp ha
        obtain ⟨_, -, rfl⟩ := Option.map_eq_some_iff.mp hb
        exact hApart
      · intro a ha b hb e f hApart he hf hSame
        rw [(hEach a ha e he).1, (hEach b hb f hf).1, hSame] at hApart
        exact hApart rfl
    · intro e he
      obtain ⟨entry, hMem, hEntry⟩ := exists_of_mem_mapM h e he
      exact (hEach entry hMem e hEntry).2

-- ---------------------------------------------------------------------------
-- Documents
-- ---------------------------------------------------------------------------

theorem endpointsOf_normal {settings : Settings} {document : Value} {es : List Endpoint}
    (hDocument : document.wellKeyed = true)
    (h : (Specification.endpointsOf settings document).outcome = .ok es) :
    (es.map Endpoint.key).Nodup ∧ ∀ e ∈ es, ∀ slot, AllApart (e.parameters slot) := by
  unfold Specification.endpointsOf at h
  obtain ⟨member, hMember, h⟩ := Journal.exists_of_bind_ok h
  obtain ⟨paths, hPaths, h⟩ := Journal.exists_of_bind_ok h
  have hOr : (Value.orElse member .emptyMap).wellKeyed = true := by
    refine orElse_wellKeyed ?_ rfl
    rintro w rfl
    exact member_wellKeyed hDocument hMember
  obtain ⟨hDistinct, hKeyed⟩ := entries_wellKeyed hOr hPaths
  split at h
  · rename_i sorted hSorted
    obtain ⟨ess, hEss, h⟩ := Journal.exists_of_bind_ok h
    cases h
    have hPerm := sortOn?_perm hSorted
    have hItems : ∀ entry ∈ sorted, ∀ es, (Endpoint.ofPathItem settings entry.1 entry.2).outcome =
        .ok es → es.Pairwise (fun e f => e.method ≠ f.method) ∧
          ∀ e ∈ es, entry.1 = .str e.path ∧ ∀ slot, AllApart (e.parameters slot) := by
      intro entry hMem es he
      exact ofPathItem_normal (hKeyed entry (hPerm.subset hMem)).2 he
    have hApart : TextsApart (Dictionary.keys sorted) :=
      (textsApart_of_distinct hDistinct).perm (hPerm.symm.map _)
    rw [Journal.outcome_mapM] at hEss
    constructor
    · rw [List.nodup_iff_pairwise_ne, List.pairwise_map, List.pairwise_flatten]
      constructor
      · -- within a path item the methods differ
        intro es hMem
        obtain ⟨entry, hEntry, he⟩ := exists_of_mem_mapM hEss es hMem
        refine (hItems entry hEntry es he).1.imp ?_
        intro e f hMethods hSame
        exact hMethods (Endpoint.key_inj hSame).1
      · -- and between path items the paths do
        refine pairwise_of_mapM_ok hEss (List.pairwise_map.mp hApart) ?_
        intro a ha b hb es fs hPathsApart hes hfs e he f hf hSame
        have hPathE := ((hItems a ha es hes).2 e he).1
        have hPathF := ((hItems b hb fs hfs).2 f hf).1
        rw [← (Endpoint.key_inj hSame).2] at hPathF
        exact hPathsApart _ hPathE hPathF
    · intro e he
      obtain ⟨es, hes, he⟩ := List.mem_flatten.mp he
      obtain ⟨entry, hEntry, hes⟩ := exists_of_mem_mapM hEss es hes
      exact ((hItems entry hEntry es hes).2 e he).2
  · cases h

theorem components_apart {components : Value} {c : Components} (hComponents : components.wellKeyed = true)
    (h : Components.ofValue components = .ok c) : TextsApart c.schemas.keys := by
  unfold Components.ofValue at h
  split at h
  · cases h
    exact List.Pairwise.nil
  · obtain ⟨schemes, -, h⟩ := exists_of_bind_ok h
    obtain ⟨schemas, hSchemas, h⟩ := exists_of_bind_ok h
    cases h
    unfold Components.sortedMember at hSchemas
    obtain ⟨entries, hEntries, hSchemas⟩ := exists_of_bind_ok hSchemas
    have hOr : (Value.orElse (components.field? "schemas") .emptyMap).wellKeyed = true :=
      orElse_wellKeyed (fun w hw => field?_wellKeyed hComponents hw) rfl
    split at hSchemas
    · rename_i sorted hSorted
      cases hSchemas
      have hDistinct := (entries_wellKeyed hOr hEntries).1
      have hApart := (textsApart_of_distinct hDistinct).perm ((sortOn?_perm hSorted).symm.map _)
      exact hApart.sublist (List.filter_sublist.map _)
    · cases hSchemas

/-- A specification has the components and the endpoints of its document. -/
theorem exists_of_ofDocument {settings : Settings} {document : Value} {s : Specification}
    (h : (Specification.ofDocument settings document).outcome = .ok s) :
    Components.ofValue ((document.field? "components").getD .null) = .ok s.components ∧
      (Specification.endpointsOf settings document).outcome = .ok s.endpoints := by
  unfold Specification.ofDocument at h
  dsimp only at h
  obtain ⟨info, -, h⟩ := Journal.exists_of_bind_ok h
  obtain ⟨name, -, h⟩ := Journal.exists_of_bind_ok h
  obtain ⟨description, -, h⟩ := Journal.exists_of_bind_ok h
  obtain ⟨baseUrl, -, h⟩ := Journal.exists_of_bind_ok h
  obtain ⟨security, -, h⟩ := Journal.exists_of_bind_ok h
  obtain ⟨components, hComponents, h⟩ := Journal.exists_of_bind_ok h
  obtain ⟨endpoints, hEndpoints, h⟩ := Journal.exists_of_bind_ok h
  cases h
  exact ⟨hComponents, hEndpoints⟩

theorem endpointsOf_of_ofDocument {settings : Settings} {document : Value} {s : Specification}
    (h : (Specification.ofDocument settings document).outcome = .ok s) :
    (Specification.endpointsOf settings document).outcome = .ok s.endpoints :=
  (exists_of_ofDocument h).2

/-- **Documents have a normal form.** What is made of a well keyed document is normal. -/
theorem ofDocument_normal {settings : Settings} {document : Value} {s : Specification}
    (hDocument : document.wellKeyed = true)
    (h : (Specification.ofDocument settings document).outcome = .ok s) : s.Normal := by
  obtain ⟨hComponents, hEndpoints⟩ := exists_of_ofDocument h
  obtain ⟨hKeys, hParameters⟩ := endpointsOf_normal hDocument hEndpoints
  refine ⟨hKeys, ?_, hParameters⟩
  refine components_apart ?_ hComponents
  cases hField : document.field? "components" with
  | none => rfl
  | some held => exact field?_wellKeyed hDocument hField

-- ---------------------------------------------------------------------------
-- All endpoints
-- ---------------------------------------------------------------------------

/-- What holds of the endpoint of each operation holds of all endpoints of a document, well keyed
or not. -/
theorem forall_endpoints {settings : Settings} {document : Value} {s : Specification}
    {P : Endpoint → Prop}
    (hOperation : ∀ method path operation pathLevel e,
      (Endpoint.ofOperation settings method path operation pathLevel).outcome = .ok e → P e)
    (h : (Specification.ofDocument settings document).outcome = .ok s) : ∀ e ∈ s.endpoints, P e := by
  have hEndpoints := endpointsOf_of_ofDocument h
  unfold Specification.endpointsOf at hEndpoints
  obtain ⟨member, -, hEndpoints⟩ := Journal.exists_of_bind_ok hEndpoints
  obtain ⟨paths, -, hEndpoints⟩ := Journal.exists_of_bind_ok hEndpoints
  split at hEndpoints
  · obtain ⟨ess, hEss, hEndpoints⟩ := Journal.exists_of_bind_ok hEndpoints
    rw [Journal.outcome_mapM] at hEss
    intro e he
    rw [← Except.ok.inj hEndpoints] at he
    obtain ⟨es, hes, he⟩ := List.mem_flatten.mp he
    obtain ⟨⟨path, item⟩, -, hItem⟩ := exists_of_mem_mapM hEss es hes
    unfold Endpoint.ofPathItem at hItem
    dsimp only at hItem
    split at hItem
    · obtain ⟨_, hThrow, -⟩ := Journal.exists_of_bind_ok hItem
      cases hThrow
    · obtain ⟨pathLevel, -, hItem⟩ := Journal.exists_of_bind_ok hItem
      rw [Journal.outcome_mapM] at hItem
      obtain ⟨⟨method, operation⟩, -, hStep⟩ := exists_of_mem_mapM hItem e he
      split at hStep
      · obtain ⟨_, hThrow, -⟩ := Journal.exists_of_bind_ok hStep
        cases hThrow
      · exact hOperation method path operation pathLevel e hStep
  · cases hEndpoints

-- ---------------------------------------------------------------------------
-- Endpoints of operations
-- ---------------------------------------------------------------------------

/-- A mapping that has something counts as true. -/
theorem orElse_of_get? {entries : Entries} {k v default : Value}
    (h : Dictionary.get? entries k = some v) :
    orElse (some (.map entries)) default = .map entries := by
  cases entries with
  | nil => cases h
  | cons _ _ => rfl

/-- An endpoint is made of each operation of a path item. -/
theorem exists_of_ofPathItem {settings : Settings} {method : String} {path item operation : Value}
    {es : List Endpoint} (h : (Endpoint.ofPathItem settings path item).outcome = .ok es)
    (hMethod : method ∈ Endpoint.operationMethods)
    (hOperation : item.field? method = some operation) :
    ∃ e ∈ es, ∃ pathLevel,
      (Endpoint.ofOperation settings method path operation pathLevel).outcome = .ok e := by
  unfold Endpoint.ofPathItem at h
  dsimp only at h
  split at h
  · obtain ⟨_, hThrow, -⟩ := Journal.exists_of_bind_ok h
    cases hThrow
  · obtain ⟨pathLevel, -, h⟩ := Journal.exists_of_bind_ok h
    rw [Journal.outcome_mapM] at h
    obtain ⟨e, he, hStep⟩ := exists_of_mapM_ok h (method, operation)
      (List.mem_filterMap.mpr ⟨method, hMethod, by rw [hOperation, Option.map_some]⟩)
    split at hStep
    · obtain ⟨_, hThrow, -⟩ := Journal.exists_of_bind_ok hStep
      cases hThrow
    · exact ⟨e, he, pathLevel, hStep⟩

/-- Endpoints are made of each path item of a document. -/
theorem exists_of_endpointsOf {settings : Settings} {document item : Value} {path : String}
    {es : List Endpoint} (h : (Specification.endpointsOf settings document).outcome = .ok es)
    (hItem : document.at? [.str "paths", .str path] = some item) :
    ∃ own, (Endpoint.ofPathItem settings (.str path) item).outcome = .ok own ∧ own ⊆ es := by
  obtain ⟨entries, _, rfl, hPaths, hItem⟩ := exists_of_at?_cons hItem
  obtain ⟨paths, _, rfl, hMember, hItem⟩ := exists_of_at?_cons hItem
  cases hItem
  have hPathsMember : (Value.map entries).member "paths" = .ok (some (.map paths)) :=
    congrArg Except.ok hPaths
  unfold Specification.endpointsOf at h
  obtain ⟨_, hFound, h⟩ := Journal.exists_of_bind_ok h
  cases hPathsMember.symm.trans hFound
  obtain ⟨_, hEntries, h⟩ := Journal.exists_of_bind_ok h
  rw [orElse_of_get? hMember] at hEntries
  cases hEntries
  split at h
  · rename_i sorted hSorted
    obtain ⟨ess, hEss, h⟩ := Journal.exists_of_bind_ok h
    cases h
    rw [Journal.outcome_mapM] at hEss
    obtain ⟨⟨key, held⟩, hEntry, hSame, rfl⟩ := Dictionary.exists_of_get? hMember
    cases beq_str.mp hSame
    obtain ⟨own, hOwn, hStep⟩ := exists_of_mapM_ok hEss _ ((sortOn?_perm hSorted).mem_iff.mpr hEntry)
    exact ⟨own, hStep, fun e he => List.mem_flatten.mpr ⟨own, hOwn, he⟩⟩
  · cases h

/-- The parameters of the body are those of the request body of the operation. -/
theorem bodyParameters_of_ofOperation {settings : Settings} {method : String}
    {path operation pathLevel : Value} {e : Endpoint}
    (h : (Endpoint.ofOperation settings method path operation pathLevel).outcome = .ok e) :
    ∃ location, (requestBody ((operation.field? "requestBody").getD .null) location).outcome =
      .ok (e.contentType, e.bodyParameters) := by
  obtain ⟨d, hRead⟩ := exists_isReadFrom h
  exact ⟨d.label, hRead.body⟩

end ClientGen.Api
