import ClientGen.Proofs.Api.Addresses
import ClientGen.Proofs.Api.PathParameters
import ClientGen.Proofs.Schema.Flattening
import Mathlib

/-!
# The parameter lists of an endpoint

Side tables and arguments are found by slot and name, so in no slot may a name come twice.
Each slot has its own way to ensure this: the first declaration of a name counts in the path,
the query and the headers, a placeholder adds a path parameter if none is declared, and the
parameters of a body are the first ones with their names. What is declared for the path item
comes before what the operation declares.

Main results:

* `declares_of_declaredParameters_ok` — the parameters of a slot are those for the first
  declarations of their names.
* `completed_filter` — each placeholder has one path parameter.
* `parameters_of_ofOperation` — the parameter lists of an endpoint.
-/

namespace ClientGen.Schema

open ClientGen.Api ClientGen.Document ClientGen.Document.Value

-- ---------------------------------------------------------------------------
-- Declarations
-- ---------------------------------------------------------------------------

/-- The name that is declared for the slot, with its declaration. -/
def declaration? (slot : Slot) (raw : Value) : Option (Value × Value) :=
  match raw.field? "name", raw.field? "in" with
  | some name, some place => if place.isStr slot.name then some (name, raw) else none
  | _, _ => none

/-- The declarations for a slot, in order. -/
def declarations (slot : Slot) (raws : List Value) : List (Value × Value) :=
  raws.filterMap (declaration? slot)

/-- The parameters of the slot are those that the first declarations of their names describe. -/
def Declares (slot : Slot) (raws : List Value) (ps : List Parameter) : Prop :=
  List.Forall₂ (fun d p => (declaredParameter d.1 d.2).outcome = .ok p)
    (firstsBy Prod.fst (declarations slot raws)) ps

/-- A parameter has the name of its declaration. -/
theorem Declares.names {slot : Slot} {raws : List Value} {ps : List Parameter}
    (h : Declares slot raws ps) :
    ps.map Parameter.name = (firstsBy Prod.fst (declarations slot raws)).map Prod.fst := by
  exact map_eq_of_mapM_ok (mapM_eq_ok_iff.mpr h) fun d _ p hp => (declaredParameter_apart hp).1

theorem Declares.siblingsApart {slot : Slot} {raws : List Value} {ps : List Parameter}
    (h : Declares slot raws ps) : SiblingsApart ps := by
  have hApart : (ps.map Parameter.name).Pairwise fun k k' => (k == k') = false := by
    rw [h.names, List.pairwise_map]
    exact pairwise_firstsBy _
  exact List.pairwise_map.mp hApart

/-- What a text names in the slot is what the first declaration of the name describes. -/
theorem Declares.first {slot : Slot} {raws : List Value} {ps : List Parameter}
    (h : Declares slot raws ps) {p : Parameter} (hp : p ∈ ps) {name : String}
    (hName : p.name = .str name) :
    ∃ d, (declarations slot raws).find? (·.1 == .str name) = some d ∧
      (declaredParameter d.1 d.2).outcome = .ok p := by
  obtain ⟨d, hd, hRead⟩ := exists_left_of_forall₂ h p hp
  have hKey : (d.1 == .str name) = true := by
    rw [← (declaredParameter_apart hRead).1, hName]
    exact beq_str.mpr rfl
  refine ⟨d, ?_, hRead⟩
  rw [← find?_firstsBy (steady_str name).congr]
  exact find?_of_apart (steady_str name).joins (pairwise_firstsBy _) hd hKey

-- ---------------------------------------------------------------------------
-- Reading declarations
-- ---------------------------------------------------------------------------

section Steps

variable {slot : Slot} {raws : List Value} {raw name : Value} {ps : List Parameter}

theorem declarations_snoc (slot : Slot) (raws : List Value) (raw : Value) :
    declarations slot (raws ++ [raw]) = declarations slot raws ++ (declaration? slot raw).toList := by
  rw [declarations, List.filterMap_append, ← declarations]
  cases hRaw : declaration? slot raw with
  | none => rw [List.filterMap_cons_none hRaw]; rfl
  | some d => rw [List.filterMap_cons_some hRaw]; rfl

/-- What is declared for another slot leaves the slot as it is. -/
theorem Declares.skip (h : Declares slot raws ps) (hOther : declaration? slot raw = none) :
    Declares slot (raws ++ [raw]) ps := by
  rw [Declares, declarations_snoc, hOther, Option.toList_none, List.append_nil]
  exact h

theorem Declares.named_eq (h : Declares slot raws ps) (name : Value) :
    Parameter.named ps name = (firstsBy Prod.fst (declarations slot raws)).any (·.1 == name) := by
  have hAny := congrArg (List.any · (· == name)) h.names
  rw [List.any_map, List.any_map] at hAny
  exact hAny

/-- A name that is taken is passed over. -/
theorem Declares.ignore (h : Declares slot raws ps) (hHere : declaration? slot raw = some (name, raw))
    (hTaken : Parameter.named ps name = true) : Declares slot (raws ++ [raw]) ps := by
  rw [h.named_eq] at hTaken
  rw [Declares, declarations_snoc, hHere, Option.toList_some, firstsBy_snoc, addNew, if_pos hTaken]
  exact h

/-- A new name is added at the end. -/
theorem Declares.add {p : Parameter} (h : Declares slot raws ps)
    (hHere : declaration? slot raw = some (name, raw)) (hNew : Parameter.named ps name = false)
    (hRead : (declaredParameter name raw).outcome = .ok p) : Declares slot (raws ++ [raw]) (ps ++ [p]) := by
  rw [h.named_eq] at hNew
  rw [Declares, declarations_snoc, hHere, Option.toList_some, firstsBy_snoc, addNew,
    if_neg (by rw [hNew]; exact Bool.false_ne_true)]
  exact List.rel_append h (.cons hRead .nil)

end Steps

/-- A place names one slot at most. -/
theorem isStr_name_of_ne {place : Value} {slot slot' : Slot} (hHere : place.isStr slot.name = true)
    (hOther : slot ≠ slot') : place.isStr slot'.name = false := by
  cases place with
  | str text =>
    rw [beq_iff_eq.mp hHere]
    exact beq_eq_false_iff_ne.mpr fun hSame => hOther (Slot.name_inj hSame)
  | _ => rfl

/-- All slots hold the parameters that the declarations so far describe. -/
def DeclaresAll (raws : List Value) (d : Declared) : Prop :=
  ∀ slot ∈ declarable, Declares slot raws (d.get slot)

/-- Taking in a declaration keeps this. -/
theorem DeclaresAll.step {location : String} {raws : List Value} {d d' : Declared} {raw : Value}
    (hd : DeclaresAll raws d) (h : (Declared.declare location d raw).outcome = .ok d') :
    DeclaresAll (raws ++ [raw]) d' := by
  obtain ⟨name, place, hName, hPlace, hCases⟩ := declare_cases h
  have hDeclaration : ∀ slot : Slot, declaration? slot raw =
      if place.isStr slot.name then some (name, raw) else none := by
    intro slot
    rw [declaration?, hName, hPlace]
  intro slot' hSlot'
  rcases hCases with ⟨hNone, rfl⟩ | ⟨slot, hSlot, hHere, hStep⟩
  · refine (hd slot' hSlot').skip ?_
    rw [hDeclaration, hNone slot' hSlot']
    rfl
  · by_cases hSame : slot = slot'
    · subst hSame
      have hStated : declaration? slot raw = some (name, raw) := by rw [hDeclaration, if_pos hHere]
      rcases hStep with ⟨hTaken, rfl⟩ | ⟨hNew, p, hp, rfl⟩
      · exact (hd slot hSlot).ignore hStated hTaken
      · rw [Declared.get_append_self (ne_body_of_declarable hSlot)]
        exact (hd slot hSlot).add hStated hNew hp
    · have hOther : Declares slot' (raws ++ [raw]) (d.get slot') := by
        refine (hd slot' hSlot').skip ?_
        rw [hDeclaration, isStr_name_of_ne hHere hSame]
        rfl
      rcases hStep with ⟨-, rfl⟩ | ⟨-, p, -, rfl⟩
      · exact hOther
      · rw [Declared.get_append_of_ne hSame]
        exact hOther

theorem declaresAll_of_declarations_ok {location : String} {raws : List Value} {d : Declared}
    (h : raws.foldlM (fun d raw => (Declared.declare location d raw).outcome) {} = .ok d) :
    DeclaresAll raws d := by
  induction raws using List.reverseRecOn generalizing d with
  | nil =>
    cases h
    intro slot _
    cases slot <;> exact .nil
  | append_singleton raws raw ih =>
    rw [List.foldlM_append] at h
    obtain ⟨before, hBefore, h⟩ := exists_of_bind_ok h
    rw [List.foldlM_cons] at h
    obtain ⟨after, hStep, h⟩ := exists_of_bind_ok h
    cases h
    exact (ih hBefore).step hStep

/-- **Declared parameters.** The parameters of each slot are those that the first declarations of their
names describe; those of the path item come first. -/
theorem declares_of_declaredParameters_ok {above own : Value} {location : String} {d : Declared}
    (h : (declaredParameters above own location).outcome = .ok d) :
    ∃ first second, above.elements = .ok first ∧ own.elements = .ok second ∧
      DeclaresAll (first ++ second) d := by
  obtain ⟨first, hFirst, h⟩ := Journal.exists_of_bind_ok h
  obtain ⟨second, hSecond, h⟩ := Journal.exists_of_bind_ok h
  rw [Journal.outcome_foldlM] at h
  exact ⟨first, second, hFirst, hSecond, declaresAll_of_declarations_ok h⟩

end ClientGen.Schema

namespace ClientGen.Api

open ClientGen.Document ClientGen.Document.Value ClientGen.Schema

-- ---------------------------------------------------------------------------
-- Placeholders
-- ---------------------------------------------------------------------------

section Placeholders

variable {declared : List Parameter} {names : List String} (hDeclared : SiblingsApart declared)
include hDeclared

/-- The parameters for the placeholders that are missing differ from the declared ones and from each
other. -/
theorem completed_siblingsApart : SiblingsApart (completed declared names) := by
  have hTexts : ∀ {s t : String}, s ≠ t → (Value.str s == Value.str t) = false := by
    intro s t hDiffer
    rw [← Bool.not_eq_true, beq_str]
    exact fun hSame => hDiffer (Value.str.inj hSame)
  rw [SiblingsApart, completed, List.pairwise_append]
  refine ⟨hDeclared, ?_, ?_⟩
  · rw [List.pairwise_map]
    exact (nodup_eraseDups _).imp hTexts
  · intro p hp q hq
    obtain ⟨name, hName, rfl⟩ := List.mem_map.mp hq
    exact named_eq_false_iff.mp (mem_undeclared_iff.mp hName).2 p hp

/-- **Each placeholder has one path parameter**, the declared one or a text that is required. -/
theorem completed_filter {name : String} (hName : name ∈ names) :
    ∃ p, (completed declared names).filter (·.name == .str name) = [p] ∧ p.name = .str name ∧
      (p ∈ declared ∨
        Parameter.named declared (.str name) = false ∧
          p = { kind := .text, nullable := false, name := .str name }) := by
  have hNamed : Parameter.named (completed declared names) (.str name) = true :=
    named_completed_iff.mpr (Or.inr hName)
  obtain ⟨p, hp, hSame⟩ := named_iff.mp hNamed
  refine ⟨p, ?_, hSame, ?_⟩
  · exact filter_of_apart (steady_str name).joins (completed_siblingsApart hDeclared) hp
      (beq_str.mpr hSame)
  · rcases List.mem_append.mp hp with hp | hp
    · exact Or.inl hp
    · obtain ⟨added, hAdded, rfl⟩ := List.mem_map.mp hp
      cases hSame
      exact Or.inr ⟨(mem_undeclared_iff.mp hAdded).2, rfl⟩

end Placeholders

-- ---------------------------------------------------------------------------
-- Endpoints
-- ---------------------------------------------------------------------------

/-- The items of a list, if there is one. -/
def listed : Option Value → List Value
  | some (.list items) => items
  | _ => []

theorem elements_of_parameterList {value : Option Value} {label : String} {held : Value}
    (h : Endpoint.parameterList value label = .ok held) : held.elements = .ok (listed value) := by
  unfold Endpoint.parameterList at h
  split at h
  · cases h
    rfl
  · cases h
    rfl
  · cases h
    rfl
  · cases h

/-- The path parameters are the declared ones, and after them required texts for the placeholders of
the path that are not declared. -/
structure CompletesPath (e : Endpoint) (declared : List Parameter) : Prop where
  parameters : e.pathParameters = declared ++
    (undeclared declared (Path.placeholders e.path.toList)).map fun name =>
      { kind := .text, nullable := false, name := .str name }
  once : ∀ name ∈ Path.placeholders e.path.toList, ∃ p,
    e.pathParameters.filter (·.name == .str name) = [p] ∧ p.name = .str name ∧
      (p ∈ declared ∨
        Parameter.named declared (.str name) = false ∧
          p = { kind := .text, nullable := false, name := .str name })

section Lists

variable {settings : Settings} {method : String} {path operation pathLevel : Value} {d : Declarations}
  {e : Endpoint} {raws : List Value} (h : IsReadFrom settings method path operation pathLevel d e)
  (hDeclares : DeclaresAll raws d.declared)
include h hDeclares

/-- In no slot of an endpoint does a name come twice. -/
theorem IsReadFrom.siblingsApart (slot : Slot) : SiblingsApart (e.parameters slot) := by
  cases slot with
  | path =>
    show SiblingsApart e.pathParameters
    rw [h.pathParameters_eq]
    exact completed_siblingsApart (hDeclares .path (by decide)).siblingsApart
  | query =>
    show SiblingsApart e.queryParameters
    rw [h.queryParameters]
    exact (hDeclares .query (by decide)).siblingsApart
  | body =>
    show SiblingsApart e.bodyParameters
    rcases requestBody_cases h.body with hNone | ⟨schema, -, hBody⟩
    · rw [hNone]
      exact List.Pairwise.nil
    · exact siblingsApart_of_bodyParameters hBody
  | header =>
    show SiblingsApart e.headerParameters
    rw [h.headerParameters]
    exact (hDeclares .header (by decide)).siblingsApart

theorem IsReadFrom.completesPath : CompletesPath e d.declared.path := by
  refine ⟨h.pathParameters_eq, ?_⟩
  intro name hName
  rw [h.pathParameters_eq]
  exact completed_filter (hDeclares .path (by decide)).siblingsApart hName

end Lists

/-- **Parameter lists are well formed.** Whatever an endpoint was read from, the parameters of each slot
have different names. In the path, the query and the headers they are those that the first
declarations of their names describe, first those of the path item; and each placeholder of the
path has one path parameter. -/
theorem parameters_of_ofOperation {settings : Settings} {method : String}
    {path operation pathLevel : Value} {e : Endpoint}
    (h : (Endpoint.ofOperation settings method path operation pathLevel).outcome = .ok e) :
    (∀ slot, SiblingsApart (e.parameters slot)) ∧
      ∃ above, ∃ declared : Declared, pathLevel.elements = .ok above ∧
        e.queryParameters = declared.query ∧ e.headerParameters = declared.header ∧
        CompletesPath e declared.path ∧
        ∀ slot ∈ declarable,
          Declares slot (above ++ listed (operation.field? "parameters")) (declared.get slot) ∧
          ∀ p ∈ declared.get slot, ∀ name, p.name = .str name → ∃ d,
            (declarations slot (above ++ listed (operation.field? "parameters"))).find?
              (·.1 == .str name) = some d ∧ (declaredParameter d.1 d.2).outcome = .ok p := by
  obtain ⟨d, hRead⟩ := exists_isReadFrom h
  obtain ⟨above, own, hAbove, hOwn, hDeclares⟩ := declares_of_declaredParameters_ok hRead.declared
  cases hOwn.symm.trans (elements_of_parameterList hRead.own)
  refine ⟨hRead.siblingsApart hDeclares, above, d.declared, hAbove, hRead.queryParameters,
    hRead.headerParameters, hRead.completesPath hDeclares, fun slot hSlot => ⟨hDeclares slot hSlot, ?_⟩⟩
  intro p hp name hName
  exact (hDeclares slot hSlot).first hp hName

/-- Declares a parameter. -/
def declaring (name place : String) (required : Bool) : Value :=
  .map [(.str "name", .str name), (.str "in", .str place), (.str "required", .bool required)]

/-- The parameter that is declared so. -/
def declaredAs (name : String) (required : Bool) : Parameter where
  kind := .dynamic
  nullable := !required
  name := .str name

/-- An operation that declares a query parameter again that its path item declares. -/
def movePost : Value :=
  .map [(.str "operationId", .str "movePost"), (.str "parameters", .list [
    declaring "page" "query" false, declaring "id" "path" true, declaring "page" "header" false])]

/-- Its endpoint at a path that repeats a placeholder. -/
def movePostEndpoint : Endpoint where
  name := "movePost"
  method := .post
  path := "/posts/{id}/{to}/{to}"
  segments := ["posts", "{id}", "{to}", "{to}"]
  collection := "Posts"
  pathParameters := [declaredAs "id" true, { kind := .text, nullable := false, name := .str "to" }]
  queryParameters := [declaredAs "page" true]
  headerParameters := [declaredAs "page" false]

theorem ofOperation_movePost :
    (Endpoint.ofOperation {} "post" (.str movePostEndpoint.path) movePost
      (.list [declaring "page" "query" true])).outcome = .ok movePostEndpoint := by
  -- texts are unfolded by equations from all over the library, which is imported whole for that
  cbv

/-- The placeholder that is repeated has one parameter, a text that is required. -/
theorem parameters_of_movePost :
    (∀ slot, SiblingsApart (movePostEndpoint.parameters slot)) ∧
      (∃ declared, CompletesPath movePostEndpoint declared) ∧
      Declares .query [declaring "page" "query" true, declaring "page" "query" false,
        declaring "id" "path" true, declaring "page" "header" false]
        movePostEndpoint.queryParameters := by
  obtain ⟨hApart, above, declared, hAbove, hQuery, -, hPath, hEach⟩ :=
    parameters_of_ofOperation ofOperation_movePost
  cases hAbove
  have hOwn : listed (movePost.field? "parameters") = [declaring "page" "query" false,
      declaring "id" "path" true, declaring "page" "header" false] := by
    cbv
  have hDeclares := (hEach .query (by decide)).1
  rw [hOwn] at hDeclares
  refine ⟨hApart, ⟨declared.path, hPath⟩, ?_⟩
  rw [hQuery]
  exact hDeclares

end ClientGen.Api
