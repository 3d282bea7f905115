import ClientGen.Proofs.Api.DirectReference
import ClientGen.Proofs.Naming.Identifiers
import ClientGen.Proofs.Unit.BoundNames

/-!
# Names of classes

The classes of a client are named by five derivations, from names of methods, from
collections, from the tables, from contexts and parameters, and from the names of
component schemas. Each of them drops what an identifier cannot hold and guards what is
left. So every class name is an identifier, but nothing keeps it from being a reserved
word: where a text of the document spells one, the class is called so. For requests this
cannot happen, and for resources and enumerations only with the three reserved words that
start with a capital.

Main results:

* `implied_of_ofSchema` — where the class of a response comes from.
* `described_of_mem_dtos` — where the data classes of a specification come from.
* `generate_classNames` — the class names of a client.
* `generate_reservedClasses` — a client with reserved words for class names.
-/

namespace ClientGen.Unit

open ClientGen.Api ClientGen.Document ClientGen.Enumeration ClientGen.Naming ClientGen.Text

-- ---------------------------------------------------------------------------
-- Data classes
-- ---------------------------------------------------------------------------

/-- The name is that of a component schema, or one that a table has for an envelope. -/
def Implied (table : Dictionary String EnvelopeTarget) (name : String) : Prop :=
  (∃ text, name = dtoClass text) ∨ ∃ target ∈ table.values, name = target.dto

section Implied

variable {table : Dictionary String EnvelopeTarget} {name : String}

theorem implied_of_referencedClass? {schema : Value} (h : Response.referencedClass? schema = some name) :
    Implied table name := by
  obtain ⟨text, -, rfl⟩ := Option.map_eq_some_iff.mp h
  exact Or.inl ⟨text, rfl⟩

theorem implied_of_mem {entry : String × EnvelopeTarget} (h : entry ∈ table) :
    Implied table entry.2.dto :=
  Or.inr ⟨entry.2, List.mem_map_of_mem h, rfl⟩

theorem implied_of_ofItems {items : Value} (h : (Response.ofItems table items).dto? = some name) :
    Implied table name := by
  unfold Response.ofItems at h
  split at h
  · rename_i hClass
    cases h
    exact implied_of_referencedClass? hClass
  · split at h
    · cases h
    · split at h
      · rename_i hFound
        cases h
        exact implied_of_mem (List.mem_of_find?_eq_some hFound)
      · cases h

theorem implied_of_ofEnvelope? {properties : Value} {response : Response}
    (hResponse : Response.ofEnvelope? table properties = some response)
    (h : response.dto? = some name) : Implied table name := by
  obtain ⟨entry, hEntry, hHeld⟩ := List.exists_of_findSome?_eq_some hResponse
  obtain ⟨held, -, rfl⟩ := Option.map_eq_some_iff.mp hHeld
  dsimp only at h
  split at h
  all_goals
    cases h
    exact implied_of_mem hEntry

/-- What is passed through has no class. -/
theorem dto?_of_fallback {schema : Value} {reason : String} {response : Response}
    (h : (Response.fallback schema reason).outcome = .ok response) : response.dto? = none := by
  unfold Response.fallback at h
  dsimp only at h
  obtain ⟨_, -, h⟩ := Journal.exists_of_bind_ok h
  cases h
  split <;> rfl

/-- The class of a response is that of the schema it refers to, or comes from the table. -/
theorem implied_of_ofSchema {schema : Value} {response : Response}
    (hResponse : (Response.ofSchema table schema).outcome = .ok response)
    (h : response.dto? = some name) : Implied table name := by
  unfold Response.ofSchema at hResponse
  split at hResponse
  · cases hResponse
    cases h
  · split at hResponse
    · rename_i hClass
      cases hResponse
      cases h
      exact implied_of_referencedClass? hClass
    · obtain ⟨properties, -, hResponse⟩ := Journal.exists_of_bind_ok hResponse
      split at hResponse
      · split at hResponse
        · cases hResponse
          cases hItems : Response.mapping? schema "items" with
          | none =>
            rw [hItems] at h
            cases h
          | some items =>
            rw [hItems] at h
            exact implied_of_ofItems h
        · split at hResponse
          · rw [dto?_of_fallback hResponse] at h
            cases h
          · split at hResponse
            all_goals
              cases hResponse
              cases h
      · split at hResponse
        · cases hResponse
          cases hEnvelope : Response.ofEnvelope? table (properties.getD .null) with
          | none =>
            rw [hEnvelope] at h
            cases h
          | some response =>
            rw [hEnvelope] at h
            exact implied_of_ofEnvelope? hEnvelope h
        · rw [dto?_of_fallback hResponse] at h
          cases h

end Implied

/-- The class is named after a component schema that describes objects, or it is that of a response. -/
def Described (s : Specification) (name : String) : Prop :=
  (∃ text schema, (Value.str text, schema) ∈ s.components.schemas ∧ describesObject schema = true ∧
    name = dtoClass text) ∨
  ∃ e ∈ s.endpoints, e.response.bind Response.dto? = some name

theorem described_of_mem_dtos {s : Specification} {dtos : Dictionary String Value}
    (h : (dtosOf s).outcome = .ok dtos) : ∀ name ∈ dtos.keys, Described s name := by
  unfold dtosOf at h
  obtain ⟨components, hComponents, h⟩ := Journal.exists_of_bind_ok h
  obtain ⟨all, hAll, h⟩ := Journal.exists_of_bind_ok h
  cases h
  rw [Journal.outcome_foldlM] at hComponents hAll
  have hFirst : ∀ name ∈ components.keys, Described s name := by
    refine foldlM_ok_induction (fun dtos : Dictionary String Value => ∀ name ∈ dtos.keys,
      Described s name) (fun _ hMem => absurd hMem List.not_mem_nil) ?_ hComponents
    intro dtos entry dtos' hEntry hBefore hStep name hName
    obtain ⟨-, rfl⟩ | ⟨text, hText, hObject, ⟨-, rfl⟩ | ⟨-, rfl⟩⟩ := addComponentDto_cases hStep
    · exact hBefore name hName
    · exact hBefore name hName
    · rcases Dictionary.mem_keys_put.mp hName with hOld | rfl
      · exact hBefore name hOld
      · exact Or.inl ⟨text, entry.2, hText ▸ hEntry, hObject, rfl⟩
  have hLast : ∀ name ∈ all.keys, Described s name := by
    refine foldlM_ok_induction (fun dtos : Dictionary String Value => ∀ name ∈ dtos.keys,
      Described s name) hFirst ?_ hAll
    intro dtos e dtos' he hBefore hStep name hName
    obtain ⟨rfl, -⟩ | ⟨response, className, hResponse, hClass, -, rfl⟩ := addResponseDto_cases hStep
    · exact hBefore name hName
    · rcases Dictionary.mem_keys_put.mp hName with hOld | rfl
      · exact hBefore name hOld
      · exact Or.inr ⟨e, he, by rw [hResponse, Option.bind_some, hClass]⟩
  intro name hName
  exact hLast name (((List.mergeSort_perm all _).map Prod.fst).subset hName)

/-- The class of an endpoint's response is that of a schema, or comes from the table. -/
theorem implied_of_endpoint {settings : Settings} {document : Value} {s : Specification}
    (h : (Specification.ofDocument settings document).outcome = .ok s) {e : Endpoint}
    (he : e ∈ s.endpoints) {name : String} (hName : e.response.bind Response.dto? = some name) :
    Implied settings.tables.envelopeTargets name := by
  have hAll : ∀ e ∈ s.endpoints, ∀ name, e.response.bind Response.dto? = some name →
      Implied settings.tables.envelopeTargets name := by
    refine forall_endpoints (fun method path operation pathLevel e hOperation name hName => ?_) h
    obtain ⟨response, hResponse, hClass⟩ := Option.bind_eq_some_iff.mp hName
    obtain ⟨success, made, -, hMade, hNone, -, hHeld⟩ := exists_response_of_ofOperation hOperation
    rw [hHeld response hResponse] at hClass
    cases success with
    | none =>
      rw [hNone rfl] at hClass
      cases hClass
    | some schema => exact implied_of_ofSchema (hMade schema rfl) hClass
  exact hAll e he name hName

-- ---------------------------------------------------------------------------
-- Enumerations
-- ---------------------------------------------------------------------------

/-- The name is an identifier, and where it is a reserved word it is spelled by the words of a context
and a parameter. -/
def InContext (name : String) : Prop :=
  IsIdentifier name ∧
    (isKeyword name = true → ∃ context parameter, pascal context ++ pascal parameter = name)

theorem inContext_of_free {name : String} (h : IsName name) : InContext name :=
  ⟨h.toIsIdentifier, fun hWord => by rw [h.unreserved] at hWord; cases hWord⟩

/-- Under the standard tables no well-known name and no shared concept is a reserved word. -/
theorem proposals_inContext (parameter text : String) :
    ∀ p ∈ proposals {} parameter (pascal text), InContext p.2 := by
  have hTable : ∀ e ∈ Tables.Standard.enumNames, isKeyword (identifier e.2 guardWord) = false := by
    decide +kernel
  have hConcepts : ∀ words ∈ Tables.Standard.sharedConcepts,
      isKeyword (identifier words guardWord) = false := by
    decide +kernel
  intro p hp
  have hIdentifier := isIdentifier_of_mem_proposals p hp
  simp only [proposals, List.mem_append, List.mem_singleton] at hp
  rcases hp with (hWellKnown | hShared) | rfl
  · split at hWellKnown
    · rename_i name hName
      obtain ⟨e, he, -, rfl⟩ := Dictionary.exists_of_get? hName
      split at hWellKnown
      · cases hWellKnown
      · rw [List.mem_singleton.mp hWellKnown] at hIdentifier ⊢
        exact inContext_of_free ⟨hIdentifier, hTable e he⟩
    · cases hWellKnown
  · split at hShared
    · rename_i hConcept
      rw [List.mem_singleton.mp hShared] at hIdentifier ⊢
      dsimp only
      exact inContext_of_free
        ⟨hIdentifier, hConcepts (pascal parameter) (List.contains_iff_mem.mp hConcept)⟩
    · cases hShared
  · dsimp only at hIdentifier ⊢
    refine ⟨hIdentifier, fun hWord => ⟨text, parameter, ?_⟩⟩
    have hWords : IdentifierChars (pascal text ++ pascal parameter) := by
      intro c hc
      rw [String.toList_append, List.mem_append] at hc
      exact hc.elim (identifierChars_pascal _ c) (identifierChars_pascal _ c)
    have hSpelled : isKeyword (spelling (pascal text ++ pascal parameter)) = true := by
      rwa [← isKeyword_identifier (by decide : isKeyword guardWord = false)]
    rw [identifier_of_spelling hSpelled, spelling_of_chars hWords]

/-- So it is with all enumerations, for a number makes any name a free one. -/
theorem inContext_of_defines {s : Specification} {registry : Registry}
    (hRegistry : (collect {} s).outcome = .ok registry) {name : String}
    (hName : registry.Defines name) : InContext name :=
  defined_of_proposals hRegistry proposals_inContext
    (fun _ n hBefore => inContext_of_free (hBefore.1.append_number n)) hName

-- ---------------------------------------------------------------------------
-- All classes
-- ---------------------------------------------------------------------------

/-- The collection that an endpoint is sorted into. -/
def collectionOf (settings : Settings) (e : Endpoint) : String :=
  if e.collection = "" then settings.fallbackResource else e.collection

/-- The class names of a client are identifiers. Those of requests are not reserved; those of resources
and enumerations are only if they are one of the reserved words with a capital and the document has
words for them, those of data classes only if they are named after a text that spells them. -/
structure ClassNames (settings : Settings) (s : Specification) (registry : Registry)
    (members : List (Endpoint × ResolvedName)) (dtos : Dictionary String Value) : Prop where
  requests : ∀ m ∈ members, IsName m.2.requestClass
  resources : ∀ resource ∈ resourcesOf members, IsIdentifier resource ∧
    (isKeyword resource = true → resource ∈ capitalKeywords ∧
      ∃ e ∈ s.endpoints, pascal (collectionOf settings e) = resource)
  enums : ∀ d ∈ registry.definitions.values, IsIdentifier d.name ∧
    (isKeyword d.name = true → d.name ∈ capitalKeywords ∧
      ∃ context parameter, pascal context ++ pascal parameter = d.name)
  dtos : ∀ name ∈ dtos.keys, IsIdentifier name ∧
    (isKeyword name = true → ∃ text, name = dtoClass text ∧ spelling text = name)

/-- A resource is reserved where its collection is. -/
theorem pascal_of_resourceClass {collection : String} (h : isKeyword (resourceClass collection) = true) :
    pascal collection = resourceClass collection := by
  have hSpelled : isKeyword (spelling (pascal collection)) = true := by
    rw [← isKeyword_identifier (by decide : isKeyword "Resource" = false)]
    exact h
  have hSame : resourceClass collection = spelling (pascal collection) :=
    identifier_of_spelling hSpelled "Resource"
  rw [hSame, spelling_of_chars (identifierChars_pascal collection)]

/-- A data class of a schema is reserved where the schema is called so. -/
theorem spelling_of_dtoClass {text : String} (h : isKeyword (dtoClass text) = true) :
    spelling text = dtoClass text := by
  have hSpelled : isKeyword (spelling text) = true := by
    rwa [← isKeyword_identifier (by decide : isKeyword "Dto" = false)]
  exact (identifier_of_spelling hSpelled "Dto").symm

/--
**Class names are identifiers.** Under the standard tables, whenever a client is generated, all its
class names are made of ASCII letters, digits and underscores and start with no digit. Request
classes are no reserved words. The other classes are only where the document spells one.
-/
theorem generate_classNames {settings : Settings} {document : Value} {g : Generated}
    (hTables : settings.tables = {}) (h : (generate settings document).outcome = .ok g) :
    ∃ members dtos, Closed settings g.specification g.registry g.names g.units members dtos ∧
      ClassNames settings g.specification g.registry members dtos := by
  obtain ⟨resolution, hSpecification, hRegistry, hNames, hSame, hUnits⟩ := exists_of_generate_ok h
  obtain ⟨members, dtos, hClosed⟩ := units_closed hRegistry hUnits
  rw [hTables] at hRegistry
  have hMade : ∀ m ∈ members, ∃ e ∈ g.specification.endpoints, ∃ name arguments,
      m.2 = nameWith settings e name arguments := by
    intro m hm
    have hFound := hClosed.named m hm
    rw [hSame] at hFound
    obtain ⟨entry, hEntry, -, hValue⟩ := Dictionary.exists_of_get? hFound
    obtain ⟨e, he, name, arguments, -, hName⟩ := exists_nameWith_of_mem hNames _ (List.mem_map_of_mem hEntry)
    exact ⟨e, he, name, arguments, hValue ▸ hName⟩
  refine ⟨members, dtos, hClosed, ?_, ?_, ?_, ?_⟩
  · intro m hm
    obtain ⟨e, -, name, arguments, hName⟩ := hMade m hm
    rw [hName, nameWith_requestClass]
    exact isName_requestClass name
  · intro resource hResource
    obtain ⟨m, hm, rfl⟩ := List.mem_map.mp (List.mem_eraseDups.mp hResource)
    obtain ⟨e, he, name, arguments, hName⟩ := hMade m hm
    have hGroup : m.2.resourceClass = resourceClass (collectionOf settings e) := by
      rw [hName, nameWith_resourceClass]
      rfl
    rw [hGroup]
    refine ⟨isIdentifier_resourceClass _, fun hWord => ⟨?_, e, he, pascal_of_resourceClass hWord⟩⟩
    exact (capital_resourceClass _).mem_of_isKeyword hWord
  · intro d hd
    have hDefined : g.registry.Defines d.name := List.mem_map_of_mem hd
    obtain ⟨hIdentifier, hContext⟩ := inContext_of_defines hRegistry hDefined
    exact ⟨hIdentifier, fun hWord =>
      ⟨(capital_of_defines hRegistry hDefined).mem_of_isKeyword hWord, hContext hWord⟩⟩
  · intro name hName
    have hTable : ∀ target ∈ Tables.Standard.envelopeTargets.values, IsName target.dto := by
      decide +kernel
    have hOf : ∀ text, IsIdentifier (dtoClass text) ∧ (isKeyword (dtoClass text) = true →
        ∃ text', dtoClass text = dtoClass text' ∧ spelling text' = dtoClass text) := fun text =>
      ⟨isIdentifier_dtoClass text, fun hWord => ⟨text, rfl, spelling_of_dtoClass hWord⟩⟩
    rcases described_of_mem_dtos hClosed.described name hName with ⟨text, _, -, -, rfl⟩ | ⟨e, he, hClass⟩
    · exact hOf text
    · have hImplied := implied_of_endpoint hSpecification he hClass
      rw [hTables] at hImplied
      rcases hImplied with ⟨text, rfl⟩ | ⟨target, hTarget, rfl⟩
      · exact hOf text
      · have hFree := hTable target hTarget
        exact ⟨hFree.toIsIdentifier, fun hWord => by rw [hFree.unreserved] at hWord; cases hWord⟩

-- ---------------------------------------------------------------------------
-- Reserved words
-- ---------------------------------------------------------------------------

/-- A document with a component schema and a path that are called by reserved words. -/
def reservedDocument : Value :=
  .map [(.str "info", .map []),
    (.str "paths", .map [(.str "/none", .map [(.str "get", .map [(.str "operationId", .str "read")])])]),
    (.str "components", .map [(.str "schemas", .map [
      (.str "class", .map [(.str "type", .str "object")])])])]

/-- A client is generated for it. -/
theorem exists_generate_reserved :
    ∃ g members dtos, (generate {} reservedDocument).outcome = .ok g ∧
      namedEndpoints g.specification g.names = .ok members ∧
      members.map (fun m => (m.2.resourceClass, m.2.requestClass)) = [("None", "ReadRequest")] ∧
      (dtosOf g.specification).outcome = .ok dtos ∧ dtos.keys = ["class"] := by
  have hPasses : ((passes {} reservedDocument).toOption.map fun found =>
      (found.2.1.map fun m => (m.2.resourceClass, m.2.requestClass), found.2.2.keys,
        found.2.2.all fun e => isBare e.2)) = some ([("None", "ReadRequest")], ["class"], true) := by
    decide +kernel
  obtain ⟨⟨s, members, dtos⟩, hFound, hAll⟩ := Option.map_eq_some_iff.mp hPasses
  obtain ⟨hNamed, hRest⟩ := Prod.mk.inj hAll
  obtain ⟨hKeys, hBare⟩ := Prod.mk.inj hRest
  obtain ⟨g, hRun, rfl, hMembers, hDtos⟩ := exists_generate_of_passes (ok_of_toOption hFound) hBare
  exact ⟨g, members, dtos, hRun, hMembers, hNamed, hDtos, hKeys⟩

/-- Its class names are identifiers. -/
theorem classNames_reservedDocument :
    ∃ g members dtos, (generate {} reservedDocument).outcome = .ok g ∧
      Closed {} g.specification g.registry g.names g.units members dtos ∧
      ClassNames {} g.specification g.registry members dtos := by
  obtain ⟨g, _, _, hRun, -⟩ := exists_generate_reserved
  obtain ⟨members, dtos, hClosed, hClasses⟩ := generate_classNames rfl hRun
  exact ⟨g, members, dtos, hRun, hClosed, hClasses⟩

/-- The classes of its resource and of its data are reserved words. -/
theorem generate_reservedClasses :
    ∃ g members dtos, (generate {} reservedDocument).outcome = .ok g ∧
      Closed {} g.specification g.registry g.names g.units members dtos ∧
      "None" ∈ resourcesOf members ∧ isKeyword "None" = true ∧
      "class" ∈ dtos.keys ∧ isKeyword "class" = true := by
  obtain ⟨g, members, dtos, hRun, hMembers, hNamed, hDtos, hKeys⟩ := exists_generate_reserved
  obtain ⟨_, -, hRegistry, -, -, hUnits⟩ := exists_of_generate_ok hRun
  obtain ⟨members', dtos', hClosed⟩ := units_closed hRegistry hUnits
  obtain rfl : dtos = dtos' := Except.ok.inj (hDtos.symm.trans hClosed.described)
  obtain ⟨m, hm, hClasses⟩ := List.mem_map.mp (hNamed ▸ List.mem_singleton_self _)
  -- the endpoint has the same name among the members of the units
  obtain ⟨hEndpoint, hFound⟩ := namedEndpoints_mem hMembers m hm
  rw [← hClosed.endpoints] at hEndpoint
  obtain ⟨m', hm', hSame⟩ := List.mem_map.mp hEndpoint
  have hFound' := hClosed.named m' hm'
  rw [hSame, hFound] at hFound'
  have hResource : m'.2.resourceClass = "None" := by
    rw [← Option.some.inj hFound']
    exact congrArg Prod.fst hClasses
  refine ⟨g, members', dtos, hRun, hClosed, ?_, by decide, ?_, by decide⟩
  · exact List.mem_eraseDups.mpr (hResource ▸ List.mem_map_of_mem hm')
  · rw [hKeys]
    exact List.mem_singleton_self _

end ClientGen.Unit
