import ClientGen.Proofs.Enumeration.Priority
import ClientGen.Proofs.Naming.Capital
import ClientGen.Proofs.Unit.Closure

/-!
# The names that units bind

A unit binds the names that it imports and the class that it defines. Enumerations, data
classes and requests get their names from the document, each kind by a pass of its own,
and a few clashes are resolved by an alias: that of a data class with its request, of an
enumeration with its data class, of a request with its resource. This module says which
clashes are left. A unit binds a name twice exactly if a name from the document is one of
those that the unit imports from elsewhere, or if it meets a name of another kind that no
alias covers.

Main results:

* `capital_of_defines` — enumerations start with a capital, so they never meet a module.
* `requestImports_sublist`, `resourceImports_sublist`, `dtoImports_sublist` — the import
  lines of a unit of each kind stand before its class.
* `requestNames_nodup_iff`, `resourceNames_nodup_iff`, `dtoNames_nodup_iff` — the names
  of a unit of each kind.
-/

namespace ClientGen.Unit

open ClientGen.Api ClientGen.Document ClientGen.Enumeration ClientGen.Naming

-- ---------------------------------------------------------------------------
-- Names of enumerations
-- ---------------------------------------------------------------------------

theorem capital_guardWord : Capital guardWord := by decide

/-- Under the standard tables everything that is proposed starts with a capital. -/
theorem proposals_capital (parameter text : String) :
    ∀ p ∈ proposals {} parameter (pascal text), Capital p.2 := by
  have hTable : ∀ e ∈ Tables.Standard.enumNames, Guardable e.2.toList := by decide +kernel
  intro p hp
  simp only [proposals, List.mem_append, List.mem_singleton] at hp
  rcases hp with (hWellKnown | hShared) | rfl
  · split at hWellKnown
    · rename_i name hName
      obtain ⟨e, he, -, rfl⟩ := Dictionary.exists_of_get? hName
      split at hWellKnown
      · cases hWellKnown
      · rw [List.mem_singleton.mp hWellKnown]
        exact capital_identifier (hTable e he) capital_guardWord
    · cases hWellKnown
  · split at hShared
    · rw [List.mem_singleton.mp hShared]
      dsimp only
      exact capital_identifier (guardable_pascal parameter) capital_guardWord
    · cases hShared
  · have hWords : Guardable (pascal text ++ pascal parameter).toList := by
      rw [String.toList_append]
      exact (guardable_pascal text).append (guardable_pascal parameter)
    dsimp only
    exact capital_identifier hWords capital_guardWord

/-- Enumerations start with a capital. -/
theorem capital_of_defines {s : Specification} {registry : Registry}
    (hRegistry : (collect {} s).outcome = .ok registry) {name : String}
    (hName : registry.Defines name) : Capital name :=
  defined_of_proposals hRegistry proposals_capital (fun _ _ hCapital => hCapital.append _) hName

/-- The enumerations of arguments are listed once. -/
theorem enumNames_nodup (arguments : List Argument) : (Argument.enumNames arguments).Nodup :=
  (List.mergeSort_perm _ _).nodup_iff.mpr (nodup_eraseDups _)

-- ---------------------------------------------------------------------------
-- Bound names
-- ---------------------------------------------------------------------------

/-- The names that import lines and a class bind, in their order. -/
def boundNames (imports : List Import) (className : String) : List String :=
  imports.flatMap Import.bound ++ [className]

/-- Classes that are imported under their own names are bound under these. -/
theorem bound_classImports (root folder : String) (names : List String) :
    (names.map fun name => classImport root folder ⟨name, none⟩).flatMap Import.bound = names := by
  rw [List.flatMap_map]
  exact List.flatMap_singleton' _

theorem not_mem_of_capital {name : String} {names : List String} (h : Capital name)
    (hSmall : ∀ other ∈ names, ¬ Capital other) : name ∉ names :=
  fun hMem => hSmall name hMem h

theorem requestClass_not_mem {name : String} {names : List String}
    (hOther : ∀ other ∈ names, other.toList.getLast? ≠ some 't') : requestClass name ∉ names :=
  fun hMem => hOther _ hMem (requestClass_getLast? name)

-- ---------------------------------------------------------------------------
-- Aliases
-- ---------------------------------------------------------------------------

/-- The name under which a unit knows a class: with a suffix if it is the name of its own class. -/
def aliased (suffix name own : String) : String := if name = own then name ++ suffix else name

theorem aliased_self (suffix own : String) : aliased suffix own own = own ++ suffix :=
  if_pos rfl

theorem aliased_of_ne {suffix name own : String} (h : name ≠ own) : aliased suffix name own = name :=
  if_neg h

/-- An alias serves its purpose. -/
theorem aliased_ne {suffix : String} (hSuffix : suffix ≠ "") (name own : String) :
    aliased suffix name own ≠ own := by
  by_cases h : name = own
  · rw [h, aliased_self]
    exact fun hSame => hSuffix (String.append_eq_left_iff.mp hSame)
  · rwa [aliased_of_ne h]

theorem capital_aliased (suffix own : String) {name : String} (h : Capital name) :
    Capital (aliased suffix name own) := by
  unfold aliased
  split
  · exact h.append suffix
  · exact h

/-- Different classes are known by one name only if one has the alias of the other for its name. -/
theorem eq_or_of_aliased_eq {suffix name name' own : String}
    (h : aliased suffix name own = aliased suffix name' own) :
    name = name' ∨ (name = own ∧ name' = own ++ suffix) ∨ (name' = own ∧ name = own ++ suffix) := by
  by_cases hName : name = own
  · by_cases hName' : name' = own
    · exact Or.inl (hName.trans hName'.symm)
    · rw [hName, aliased_self, aliased_of_ne hName'] at h
      exact Or.inr (Or.inl ⟨hName, h.symm⟩)
  · by_cases hName' : name' = own
    · rw [hName', aliased_self, aliased_of_ne hName] at h
      exact Or.inr (Or.inr ⟨hName', h⟩)
    · rw [aliased_of_ne hName, aliased_of_ne hName'] at h
      exact Or.inl h

-- ---------------------------------------------------------------------------
-- Request units
-- ---------------------------------------------------------------------------

/-- The import lines of a request unit. -/
def requestImports (r : Request) : List Import :=
  [lazyAnnotations, anyImport] ++ (if r.decoder.isSome then [clientImport] else []) ++ r.imports

/-- They are written before the class. -/
theorem requestImports_sublist (r : Request) :
    ((requestImports r).map Import.text ++ ["class " ++ r.className ++ "(Request):"]).Sublist
      r.lines := by
  have hClient : ((if r.decoder.isSome then [clientImport] else []).map Import.text).Sublist
      (if r.decoder.isSome then ["", clientImport.text] else []) := by
    split
    · exact List.sublist_cons_self _ _
    · exact List.Sublist.refl _
  have hHead : ([lazyAnnotations, anyImport].map Import.text).Sublist
      (r.headLines ++ ["", lazyAnnotations.text, "", anyImport.text]) :=
    List.sublist_append_of_sublist_right (.cons _ (.cons_cons _ (.cons _ (.refl _))))
  unfold Request.lines requestImports
  rw [List.map_append, List.map_append]
  -- what follows the class does not matter
  iterate 5 refine List.sublist_append_of_sublist_left ?_
  refine ((hHead.append hClient).append (List.sublist_cons_self _ _)).append ?_
  exact List.singleton_sublist.mpr (by simp)

/-- In a request unit with these enumerations, this decoded class and this class of its own, no name
from the document meets another name. -/
@[mk_iff]
structure RequestApart (enums : List String) (dto? : Option String) (className : String) : Prop where
  own : className ≠ "Request"
  enum : ∀ enum ∈ enums, enum ∉ ["Any", "Method", "Request", className]
  dto : ∀ dto ∈ dto?,
    Request.localDto dto className ∉ ["annotations", "Any", "httpx", "Method", "Request"] ++ enums

/-- What a request unit imports from the client. -/
theorem bound_requestImports (settings : Settings) (enums : List String) (dto? : Option String)
    (className : String) :
    (Request.importsOf settings enums dto? className).flatMap Import.bound =
      ["Method", "Request"] ++ (enums ++ (dto?.map (Request.localDto · className)).toList) := by
  have hDto : ∀ dto, (Request.dtoImport settings dto className).bound =
      [Request.localDto dto className] := by
    intro dto
    unfold Request.dtoImport classImport Import.bound Imported.bound
    dsimp only
    split
    · rename_i hSame
      simp [hSame]
    · rfl
  unfold Request.importsOf
  rw [List.cons_append, List.flatMap_cons, List.flatMap_append, bound_classImports]
  cases dto? with
  | none => rfl
  | some dto =>
    rw [Option.map_some, Option.map_some, Option.toList_some, Option.toList_some, List.flatMap_singleton,
      hDto]
    rfl

/-- The names in a request unit, where the client is imported if there is a response, and so if
there is a class to decode it. -/
theorem requestList_nodup_iff {enums : List String} {dto? : Option String} {className : String}
    {responds : Bool} (hEnums : enums.Nodup) (hModules : ∀ enum ∈ enums, enum ∉ ["annotations", "httpx"])
    (hOwn : className ∉ ["annotations", "Any", "httpx", "Method"])
    (hResponds : dto?.isSome = true → responds = true) :
    (["annotations", "Any"] ++ (if responds then ["httpx"] else []) ++ (["Method", "Request"] ++
        (enums ++ (dto?.map (Request.localDto · className)).toList)) ++ [className]).Nodup ↔
      RequestApart enums dto? className := by
  rw [requestApart_iff]
  cases dto? with
  | none =>
    cases responds with
    | false =>
      simp [List.nodup_append, hEnums]
      grind
    | true =>
      simp [List.nodup_append, hEnums]
      grind
  | some dto =>
    obtain rfl := hResponds rfl
    have hDto : Request.localDto dto className ≠ className := aliased_ne (by decide) dto className
    simp [List.nodup_append, hEnums]
    grind

/-- A request unit binds a name twice exactly if one from the document is not apart from the others. -/
theorem requestNames_nodup_iff {settings : Settings} {s : Specification} {registry : Registry}
    (hRegistry : (collect {} s).outcome = .ok registry) {e : Endpoint} {resolved : ResolvedName}
    (hResolved : resolved.requestClass = requestClass resolved.methodName) {r : Request}
    (h : Request.ofEndpoint settings e resolved registry = .ok r) :
    (boundNames (requestImports r) r.className).Nodup ↔
      RequestApart (Argument.enumNames r.arguments) (decodedClass? e) r.className := by
  obtain ⟨hArguments, hClass, hImports⟩ := exists_of_request_ok h
  have hDecoder : r.decoder.isSome = e.response.isSome := by
    obtain ⟨_, -, h⟩ := exists_of_bind_ok h
    obtain ⟨_, -, h⟩ := exists_of_bind_ok h
    cases h
    exact Option.isSome_map
  have hNames : boundNames (requestImports r) r.className = ["annotations", "Any"] ++
      (if e.response.isSome then ["httpx"] else []) ++ (["Method", "Request"] ++
        (Argument.enumNames r.arguments ++
          ((decodedClass? e).map (Request.localDto · r.className)).toList)) ++ [r.className] := by
    unfold boundNames requestImports
    rw [List.flatMap_append, List.flatMap_append, hImports, bound_requestImports, hDecoder]
    cases e.response.isSome <;> rfl
  rw [hNames]
  refine requestList_nodup_iff (enumNames_nodup _) ?_ ?_ ?_
  · intro enum hEnum
    have hDefined := defines_of_mem_enumNames hRegistry hArguments hEnum
    exact not_mem_of_capital (capital_of_defines hRegistry hDefined) (by decide)
  · rw [hClass, hResolved]
    exact requestClass_not_mem (by decide)
  · intro hSome
    unfold decodedClass? at hSome
    cases hResponse : e.response with
    | none =>
      rw [hResponse] at hSome
      cases hSome
    | some _ => rfl

-- ---------------------------------------------------------------------------
-- Resource units
-- ---------------------------------------------------------------------------

/-- The import lines of a resource unit. -/
def resourceImports (r : Resource) : List Import :=
  [lazyAnnotations, anyImport, clientImport] ++ r.imports

/-- They are written before the class. -/
theorem resourceImports_sublist (r : Resource) :
    ((resourceImports r).map Import.text ++ ["class " ++ r.className ++ "(BaseResource):"]).Sublist
      r.lines := by
  have hHead : ([lazyAnnotations, anyImport, clientImport].map Import.text).Sublist
      [docQuoted (r.className ++ " resource."), "", lazyAnnotations.text, "", anyImport.text, "",
        clientImport.text, ""] :=
    .cons _ (.cons _ (.cons_cons _ (.cons _ (.cons_cons _ (.cons _ (.cons_cons _ (.cons _ .slnil)))))))
  unfold Resource.lines resourceImports
  rw [List.map_append]
  refine List.sublist_append_of_sublist_left ((hHead.append (List.Sublist.refl _)).append ?_)
  exact List.singleton_sublist.mpr (by simp)

/-- The name under which a resource knows the request class of a method. -/
def localRequest (m : ResourceMethod) : String := m.localName?.getD m.requestClass

/-- In a resource unit with these enumerations, these requests and this class of its own, no
enumeration meets another name, and the class meets none of the support code. -/
@[mk_iff]
structure ResourceApart (enums requests : List String) (className : String) : Prop where
  own : className ∉ ["Any", "BaseResource"]
  enum : ∀ enum ∈ enums, enum ∉ ["Any", "BaseResource", className] ++ requests

/-- What a resource unit imports from the client. -/
theorem bound_resourceImports (settings : Settings) (className : String) (methods : List ResourceMethod) :
    (Resource.importsOf settings className methods).flatMap Import.bound =
      ["BaseResource"] ++ (Argument.enumNames (methods.flatMap (·.arguments)) ++
        methods.map localRequest) := by
  unfold Resource.importsOf
  rw [List.cons_append, List.flatMap_cons, List.flatMap_append, bound_classImports, List.flatMap_map]
  exact congrArg _ (congrArg _ List.map_eq_flatMap.symm)

/-- The names in a resource unit. Its requests are apart from all but the enumerations anyway. -/
theorem resourceList_nodup_iff {enums requests : List String} {className : String}
    (hEnums : enums.Nodup) (hRequests : requests.Nodup)
    (hCapital : ∀ name ∈ enums ++ requests ++ [className], Capital name)
    (hSupport : ∀ request ∈ requests, request ∉ ["Any", "BaseResource"])
    (hOwn : className ∉ requests) :
    (["annotations", "Any", "httpx"] ++ (["BaseResource"] ++ (enums ++ requests)) ++
        [className]).Nodup ↔ ResourceApart enums requests className := by
  have hModules : ∀ name ∈ enums ++ requests ++ [className], name ∉ ["annotations", "httpx"] :=
    fun name hName => not_mem_of_capital (hCapital name hName) (by decide)
  rw [resourceApart_iff]
  simp only [List.mem_append, or_imp, forall_and] at hModules
  simp [List.nodup_append, hEnums, hRequests]
  grind

theorem localRequest_of_methodOf_ok {resource : String} {registry : Registry}
    {m : Endpoint × ResolvedName} {method : ResourceMethod}
    (h : Resource.methodOf resource registry m = .ok method) :
    localRequest method = aliased "Alias" m.2.requestClass resource := by
  obtain ⟨arguments, -, h⟩ := exists_of_bind_ok h
  cases h
  unfold localRequest aliased
  dsimp only
  split <;> rfl

/-- The last letter tells an alias from a request class and both from the names of support code. -/
theorem aliased_requestClass_getLast? (name resource : String) :
    (aliased "Alias" (requestClass name) resource).toList.getLast? =
      if requestClass name = resource then some 's' else some 't' := by
  unfold aliased
  split
  · rw [String.toList_append]
    exact List.getLast?_append_of_ne_nil _ (List.cons_ne_nil 'A' _)
  · exact requestClass_getLast? name

theorem aliased_requestClass_not_mem {name resource : String} {names : List String}
    (hOther : ∀ other ∈ names,
      other.toList.getLast? ≠ some 's' ∧ other.toList.getLast? ≠ some 't') :
    aliased "Alias" (requestClass name) resource ∉ names := by
  intro hMem
  obtain ⟨hAlias, hPlain⟩ := hOther _ hMem
  rw [aliased_requestClass_getLast?] at hAlias hPlain
  by_cases hSame : requestClass name = resource
  · exact hAlias (if_pos hSame)
  · exact hPlain (if_neg hSame)

/-- Different request classes of a resource are known by different names. -/
theorem requestClass_eq_of_aliased_eq {name name' resource : String}
    (h : aliased "Alias" (requestClass name) resource = aliased "Alias" (requestClass name') resource) :
    requestClass name = requestClass name' := by
  have hAlias : ∀ other, requestClass other ≠ resource ++ "Alias" := by
    intro other hSame
    have hLast := requestClass_getLast? other
    have hSuffix : "Alias".toList ≠ [] := by decide
    rw [hSame, String.toList_append, List.getLast?_append_of_ne_nil _ hSuffix] at hLast
    exact absurd hLast (by decide)
  rcases eq_or_of_aliased_eq h with hSame | ⟨-, hSame⟩ | ⟨-, hSame⟩
  · exact hSame
  · exact absurd hSame (hAlias name')
  · exact absurd hSame (hAlias name)

section Members

variable {settings : Settings} {s : Specification} {registry : Registry} {resolution : Resolution}
  {members : List (Endpoint × ResolvedName)} (hFree : CollisionFree settings s.endpoints resolution)
  (hEndpoints : members.map Prod.fst = s.endpoints)
  (hNamed : ∀ m ∈ members, resolution.names.get? m.1.key = some m.2)
include hFree hEndpoints hNamed

/-- The members of a client have the names that resolution promises. -/
theorem named_of_mem {m : Endpoint × ResolvedName} (hm : m ∈ members) :
    m.2.resourceClass = groupOf settings m.1 ∧ m.2.requestClass = requestClass m.2.methodName := by
  obtain ⟨n, hn, hResource, hRequest, -⟩ := hFree.named m.1 (hEndpoints ▸ List.mem_map_of_mem hm)
  rw [Option.some.inj ((hNamed m hm).symm.trans hn)]
  exact ⟨hResource, hRequest⟩

theorem capital_of_mem_resourcesOf {resource : String} (hResource : resource ∈ resourcesOf members) :
    Capital resource := by
  obtain ⟨m, hm, rfl⟩ := List.mem_map.mp (List.mem_eraseDups.mp hResource)
  rw [(named_of_mem hFree hEndpoints hNamed hm).1]
  exact capital_resourceClass _

/-- A resource knows the request of a member by its local name. -/
theorem localRequest_of_mem {resource : String} {m : Endpoint × ResolvedName}
    (hm : m ∈ ofResource members resource) {method : ResourceMethod}
    (h : Resource.methodOf resource registry m = .ok method) :
    localRequest method = aliased "Alias" (requestClass m.2.methodName) resource := by
  rw [localRequest_of_methodOf_ok h, (named_of_mem hFree hEndpoints hNamed (List.mem_filter.mp hm).1).2]

/-- The members of a resource have different request classes. -/
theorem ofResource_apart (hKeys : (s.endpoints.map Endpoint.key).Nodup) (resource : String) :
    (ofResource members resource).Pairwise fun m m' =>
      requestClass m.2.methodName ≠ requestClass m'.2.methodName := by
  have hMem : ∀ m ∈ members, m.1 ∈ s.endpoints := fun m hm => hEndpoints ▸ List.mem_map_of_mem hm
  rw [← hEndpoints, List.nodup_iff_pairwise_ne, List.pairwise_map, List.pairwise_map] at hKeys
  refine (hKeys.filter _).imp_of_mem ?_
  intro m m' hm hm' hKey
  obtain ⟨hm, hOfResource⟩ := List.mem_filter.mp hm
  obtain ⟨hm', hOfResource'⟩ := List.mem_filter.mp hm'
  rw [← (named_of_mem hFree hEndpoints hNamed hm).2, ← (named_of_mem hFree hEndpoints hNamed hm').2]
  refine (hFree.apart m.1 (hMem m hm) m'.1 (hMem m' hm') hKey m.2 m'.2 (hNamed m hm) (hNamed m' hm')
    ?_).2
  exact (beq_iff_eq.mp hOfResource).trans (beq_iff_eq.mp hOfResource').symm

/-- A resource unit binds a name twice exactly if an enumeration, or its class, is not apart from the
others. -/
theorem resourceNames_nodup_iff (hRegistry : (collect {} s).outcome = .ok registry)
    (hKeys : (s.endpoints.map Endpoint.key).Nodup) {resource : String}
    (hResource : resource ∈ resourcesOf members) {r : Resource}
    (h : Resource.ofMembers settings resource (ofResource members resource) registry = .ok r) :
    (boundNames (resourceImports r) r.className).Nodup ↔
      ResourceApart (Argument.enumNames (r.methods.flatMap (·.arguments)))
        (r.methods.map localRequest) r.className := by
  obtain ⟨hMethods, hClass, hImports⟩ := exists_of_resource_ok h
  have hNames : boundNames (resourceImports r) r.className = ["annotations", "Any", "httpx"] ++
      (["BaseResource"] ++ (Argument.enumNames (r.methods.flatMap (·.arguments)) ++
        r.methods.map localRequest)) ++ [r.className] := by
    unfold boundNames resourceImports
    rw [List.flatMap_append, hImports, bound_resourceImports]
    rfl
  have hLocal : ∀ request ∈ r.methods.map localRequest, ∃ name,
      aliased "Alias" (requestClass name) resource = request := by
    intro request hRequest
    obtain ⟨method, hMethod, rfl⟩ := List.mem_map.mp hRequest
    obtain ⟨m, hm, hStep⟩ := exists_of_mem_mapM hMethods method hMethod
    exact ⟨_, (localRequest_of_mem hFree hEndpoints hNamed hm hStep).symm⟩
  rw [hNames]
  refine resourceList_nodup_iff (enumNames_nodup _) ?_ ?_ ?_ ?_
  · rw [List.nodup_iff_pairwise_ne, List.pairwise_map]
    refine pairwise_of_mapM_ok hMethods (ofResource_apart hFree hEndpoints hNamed hKeys resource) ?_
    intro m hm m' hm' method method' hApart hStep hStep' hSame
    rw [localRequest_of_mem hFree hEndpoints hNamed hm hStep,
      localRequest_of_mem hFree hEndpoints hNamed hm' hStep'] at hSame
    exact hApart (requestClass_eq_of_aliased_eq hSame)
  · intro name hName
    simp only [List.mem_append, List.mem_singleton] at hName
    rcases hName with (hEnum | hRequest) | rfl
    · exact capital_of_defines hRegistry (defines_of_mem_methods hRegistry hMethods hEnum)
    · obtain ⟨_, rfl⟩ := hLocal name hRequest
      exact capital_aliased _ _ (capital_requestClass _)
    · rw [hClass]
      exact capital_of_mem_resourcesOf hFree hEndpoints hNamed hResource
  · intro request hRequest
    obtain ⟨_, rfl⟩ := hLocal request hRequest
    exact aliased_requestClass_not_mem (by decide)
  · intro hMem
    obtain ⟨name, hName⟩ := hLocal _ hMem
    rw [hClass] at hName
    exact aliased_ne (by decide) (requestClass name) resource hName

end Members

-- ---------------------------------------------------------------------------
-- Data class units
-- ---------------------------------------------------------------------------

/-- The import of what makes a class a data class. -/
def dataclassImport : Import := .names "dataclasses" [⟨"dataclass", none⟩, ⟨"field", none⟩]

/-- The import lines of a data class unit. -/
def dtoImports (settings : Settings) (d : Dto) : List Import :=
  [lazyAnnotations, dataclassImport, anyImport] ++ d.imports settings

/-- They are written before the class. -/
theorem dtoImports_sublist (settings : Settings) (d : Dto) :
    ((dtoImports settings d).map Import.text ++ ["class " ++ d.name ++ ":"]).Sublist
      (d.lines settings) := by
  have hHead : ([lazyAnnotations, dataclassImport, anyImport].map Import.text).Sublist
      [docQuoted (d.name ++ " data transfer object."), "", lazyAnnotations.text, "",
        dataclassImport.text, anyImport.text] :=
    .cons _ (.cons _ (.cons_cons _ (.cons _ (.refl _))))
  have hEnums : ((d.imports settings).map Import.text).Sublist
      (if d.enums.isEmpty then [] else "" :: (d.imports settings).map Import.text) := by
    split
    · rename_i hNone
      rw [Dto.imports, List.isEmpty_iff.mp hNone]
      exact .slnil
    · exact List.sublist_cons_self _ _
  unfold Dto.lines dtoImports
  rw [List.map_append]
  iterate 5 refine List.sublist_append_of_sublist_left ?_
  refine (hHead.append hEnums).append ?_
  exact List.singleton_sublist.mpr (by simp)

/-- In the unit of a data class with these enumerations, no name from the document meets another name. -/
@[mk_iff]
structure DtoApart (enums : List String) (className : String) : Prop where
  own : className ∉ ["annotations", "dataclass", "field", "Any"]
  enum : "Any" ∉ enums
  renamed : className ∈ enums → className ++ "Enum" ∉ enums

/-- The names that the imports of enumerations bind. -/
theorem bound_enumImports (settings : Settings) (enums : List String) (className : String) :
    (enums.flatMap fun enum => (classImport settings.namespaceName settings.enumFolder
      ⟨enum, Dto.enumAlias? enum className⟩).bound) = enums.map (aliased "Enum" · className) := by
  rw [List.map_eq_flatMap]
  congr
  funext enum
  show [(Dto.enumAlias? enum className).getD enum] = _
  unfold Dto.enumAlias? aliased
  split <;> rfl

/-- Two enumerations are known by one name only if one has the alias of the other for its name. -/
theorem aliasedEnums_nodup_iff {enums : List String} (hEnums : enums.Nodup) (className : String) :
    (enums.map (aliased "Enum" · className)).Nodup ↔
      (className ∈ enums → className ++ "Enum" ∉ enums) := by
  rw [List.nodup_map_iff_inj_on hEnums]
  constructor
  · intro hInj hMem hAlias
    have hOther : className ++ "Enum" ≠ className :=
      aliased_self "Enum" className ▸ aliased_ne (by decide) className className
    refine hOther (hInj _ hAlias _ hMem ?_)
    rw [aliased_self, aliased_of_ne hOther]
  · intro hAlias enum hEnum enum' hEnum' hSame
    rcases eq_or_of_aliased_eq hSame with hEq | ⟨rfl, rfl⟩ | ⟨rfl, rfl⟩
    · exact hEq
    · exact absurd hEnum' (hAlias hEnum)
    · exact absurd hEnum (hAlias hEnum')

/-- Only the enumeration of this name is known as `Any`. -/
theorem aliased_eq_any_iff {className enum : String} (hOwn : className ≠ "Any") :
    aliased "Enum" enum className = "Any" ↔ enum = "Any" := by
  by_cases h : enum = className
  · rw [h, aliased_self]
    refine iff_of_false ?_ hOwn
    intro hAlias
    have hLength := congrArg String.length hAlias
    rw [String.length_append] at hLength
    have hSuffix : "Enum".length = 4 := rfl
    have hAny : "Any".length = 3 := rfl
    omega
  · rw [aliased_of_ne h]

/-- The names in the unit of a data class, whose enumerations are known by their own names but for
the one with the name of the class. -/
theorem dtoList_nodup_iff {enums : List String} {className : String} (hEnums : enums.Nodup)
    (hCapital : ∀ enum ∈ enums, Capital enum) :
    (["annotations", "dataclass", "field", "Any"] ++ enums.map (aliased "Enum" · className) ++
        [className]).Nodup ↔ DtoApart enums className := by
  have hModules : ∀ enum ∈ enums,
      aliased "Enum" enum className ∉ ["annotations", "dataclass", "field"] := fun enum hEnum =>
    not_mem_of_capital (capital_aliased "Enum" className (hCapital enum hEnum)) (by decide)
  have hAny : className ≠ "Any" → ∀ enum, aliased "Enum" enum className = "Any" ↔ enum = "Any" :=
    fun hOwn _ => aliased_eq_any_iff hOwn
  have hOther : ∀ enum, aliased "Enum" enum className ≠ className := fun enum =>
    aliased_ne (by decide) enum className
  rw [dtoApart_iff]
  simp [List.nodup_append, aliasedEnums_nodup_iff hEnums]
  grind

/-- A data class unit binds a name twice exactly if one from the document is not apart from the
others. -/
theorem dtoNames_nodup_iff (settings : Settings) {s : Specification} {registry : Registry}
    (hRegistry : (collect {} s).outcome = .ok registry) {name : String} {schema : Value} {d : Dto}
    (h : (Dto.ofSchema name registry schema).outcome = .ok d) :
    (boundNames (dtoImports settings d) d.name).Nodup ↔
      DtoApart (d.enums.map Imported.name) d.name := by
  obtain ⟨_, enums, -, hName, -, hNodup, hEnums, -⟩ := exists_of_ofSchema_ok h
  have hListed : d.enums.map Imported.name = enums := by
    rw [hEnums, List.map_map]
    exact List.map_id _
  have hNames : boundNames (dtoImports settings d) d.name =
      ["annotations", "dataclass", "field", "Any"] ++ enums.map (aliased "Enum" · d.name) ++ [d.name] := by
    unfold boundNames dtoImports Dto.imports
    rw [List.flatMap_append, hEnums, hName, List.flatMap_map, List.flatMap_map]
    exact congrArg (· ++ _) (congrArg _ (bound_enumImports settings enums name))
  rw [hNames, hListed]
  refine dtoList_nodup_iff hNodup ?_
  intro enum hEnum
  rw [← hListed] at hEnum
  obtain ⟨imported, hImported, rfl⟩ := List.mem_map.mp hEnum
  exact capital_of_defines hRegistry (defines_of_mem_enums hRegistry h hImported)

end ClientGen.Unit
