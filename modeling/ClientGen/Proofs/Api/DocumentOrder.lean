import ClientGen.Generate
import Mathlib
import ClientGen.Proofs.Document.Shuffled
import ClientGen.Proofs.Naming.Resolution
import ClientGen.Proofs.Sorting

/-!
# The order of a document

Endpoints and component schemas are sorted by their keys before anything is made of them,
so it does not matter in which order an expanded document lists them. The order of a
document that is still to be expanded matters as well as its expansion depends on it:
not at all where each cycle is a reference in its own target, and on longer cycles it
decides which references are left in place.

Main results:

* `ofDocument_paths` / `ofDocument_schemas` — the normal form of a document forgets the order
  of its paths and of its component schemas.
* `generate_reordered` — a document without longer cycles can list both in any order.
* `generate_mutualAliases` — a document with a longer cycle cannot.
-/

namespace ClientGen.Document.Value

-- ---------------------------------------------------------------------------
-- Sorting text keys
-- ---------------------------------------------------------------------------

/-- The text of a text key. -/
def keyText (e : Value × Value) : String :=
  match e.1 with
  | .str s => s
  | _ => ""

theorem eq_keyText {e : Value × Value} (h : e.1.isText = true) : e.1 = .str (keyText e) := by
  obtain ⟨k, v⟩ := e
  cases k with
  | str s => rfl
  | _ => cases h

/-- Entries with distinct text keys are in an order with one result when their texts are. -/
theorem keyText_linear {es : Entries} (hTexts : ∀ e ∈ es, e.1.isText = true)
    (hDistinct : Dictionary.Distinct es) :
    LinearOn (fun e f : Value × Value => decide (keyText e ≤ keyText f)) (· ∈ es) where
  trans a b c := string_linear.trans _ _ _
  total a b := string_linear.total _ _
  antisymm := by
    intro a b ha hb hab hba
    have hSame := string_linear.antisymm _ _ trivial trivial hab hba
    have hKeys : a.1 = b.1 := by rw [eq_keyText (hTexts a ha), eq_keyText (hTexts b hb), hSame]
    have hSelf : ∀ e ∈ es, (e.1 == e.1) = true := fun e he =>
      (exact_of_isText hTexts e he _).mpr rfl
    have hFound := Dictionary.get?_of_mem hDistinct ha (hSelf a ha)
    rw [hKeys, Dictionary.get?_of_mem hDistinct hb (hSelf b hb)] at hFound
    exact Prod.ext hKeys (Option.some.inj hFound).symm

/-- Text keys are sorted as texts. -/
theorem sortOn?_of_isText {es : Entries} (hTexts : ∀ e ∈ es, e.1.isText = true) :
    sortOn? (·.1) es = some (es.mergeSort fun e f => decide (keyText e ≤ keyText f)) := by
  have hComparable : ∀ e ∈ es, ∀ f ∈ es, comparable e.1 f.1 = true := by
    intro e he f hf
    rw [eq_keyText (hTexts e he), eq_keyText (hTexts f hf)]
    rfl
  have hAll : (es.all fun e => es.all fun f => comparable e.1 f.1) = true := by
    simpa only [List.all_eq_true] using hComparable
  rw [sortOn?, if_pos (by rw [hAll, Bool.or_true])]
  have hOrder : ∀ e ∈ es, ∀ f ∈ es, (!lt f.1 e.1) = decide (keyText e ≤ keyText f) := by
    intro e he f hf
    rw [eq_keyText (hTexts e he), eq_keyText (hTexts f hf), lt, ← decide_not]
    exact decide_eq_decide.mpr String.not_lt
  have hSorted : (es.mergeSort fun e f => !lt f.1 e.1).map id =
      (es.map id).mergeSort fun e f => decide (keyText e ≤ keyText f) :=
    List.map_mergeSort hOrder
  rw [List.map_id, List.map_id] at hSorted
  rw [hSorted]

/-- Sorting text keys forgets the order. -/
theorem sortOn?_eq_of_perm {es es' : Entries} (hTexts : ∀ e ∈ es, e.1.isText = true)
    (hDistinct : Dictionary.Distinct es) (h : es.Perm es') :
    sortOn? (·.1) es' = sortOn? (·.1) es := by
  rw [sortOn?_of_isText hTexts, sortOn?_of_isText fun e he => hTexts e (h.mem_iff.mpr he),
    mergeSort_eq_of_perm (keyText_linear hTexts hDistinct) (fun _ he => he) h]

end ClientGen.Document.Value

namespace ClientGen.Api

open ClientGen.Document ClientGen.Document.Value

-- ---------------------------------------------------------------------------
-- Normal forms
-- ---------------------------------------------------------------------------

section Normal

variable {settings : Settings} {v v' : Value}

/-- Component schemas are taken in the order of their names. -/
theorem sortedMember_shuffled (h : ShuffledAt ["schemas"] v v') (hKeyed : v.wellKeyed = true)
    (name : String) : Components.sortedMember v' name = Components.sortedMember v name := by
  rw [Components.sortedMember, Components.sortedMember]
  rcases h.field?_cases name with hSame | ⟨-, w, w', hSome, hSome', es, es', rfl, rfl, hPerm, hTexts⟩
  · rw [hSame]
  · have hDistinct := (wellKeyed_map.mp (field?_wellKeyed hKeyed hSome)).1
    rw [hSome, hSome', orElse_map, orElse_map, entries, entries, ok_bind, ok_bind,
      sortOn?_eq_of_perm hTexts hDistinct hPerm]

theorem components_shuffled (h : ShuffledAt ["schemas"] v v') (hKeyed : v.wellKeyed = true) :
    Components.ofValue v' = Components.ofValue v := by
  rw [Components.ofValue, Components.ofValue, h.isMapping.1, h.isMapping.2,
    sortedMember_shuffled h hKeyed, sortedMember_shuffled h hKeyed]

/-- Endpoints are taken in the order of their paths. -/
theorem endpointsOf_shuffled (h : ShuffledAt ["paths"] v v') (hKeyed : v.wellKeyed = true) :
    Specification.endpointsOf settings v' = Specification.endpointsOf settings v := by
  rw [Specification.endpointsOf, Specification.endpointsOf,
    member_of_isMapping h.isMapping.1, member_of_isMapping h.isMapping.2]
  rcases h.field?_cases "paths" with
    hSame | ⟨-, w, w', hSome, hSome', es, es', rfl, rfl, hPerm, hTexts⟩
  · rw [hSame]
  · have hDistinct := (wellKeyed_map.mp (field?_wellKeyed hKeyed hSome)).1
    simp only [hSome, hSome', Journal.lift_ok_bind, orElse_map, entries,
      sortOn?_eq_of_perm hTexts hDistinct hPerm]

theorem ofDocument_paths (h : ShuffledAt ["paths"] v v') (hKeyed : v.wellKeyed = true) :
    Specification.ofDocument settings v' = Specification.ofDocument settings v := by
  have hFields : ∀ name, name ≠ "paths" → v'.field? name = v.field? name := fun _ => h.field?_eq
  have hInfo : v'.member "info" = v.member "info" := by
    rw [member_of_isMapping h.isMapping.1, member_of_isMapping h.isMapping.2, hFields _ (by decide)]
  rw [Specification.ofDocument, Specification.ofDocument]
  simp only [hInfo, endpointsOf_shuffled h hKeyed, hFields "servers" (by decide),
    hFields "security" (by decide), hFields "components" (by decide)]

theorem ofDocument_schemas (h : ShuffledAt ["components", "schemas"] v v')
    (hKeyed : v.wellKeyed = true) :
    Specification.ofDocument settings v' = Specification.ofDocument settings v := by
  have hFields : ∀ name, name ≠ "components" → v'.field? name = v.field? name := fun _ => h.field?_eq
  have hMember : ∀ name, name ≠ "components" → v'.member name = v.member name := by
    intro name hName
    rw [member_of_isMapping h.isMapping.1, member_of_isMapping h.isMapping.2, hFields _ hName]
  have hComponents : Components.ofValue ((v'.field? "components").getD .null) =
      Components.ofValue ((v.field? "components").getD .null) := by
    rcases h.field?_cases "components" with hSame | ⟨-, w, w', hSome, hSome', hShuffled⟩
    · rw [hSame]
    · rw [hSome, hSome']
      exact components_shuffled hShuffled (field?_wellKeyed hKeyed hSome)
  have hEndpoints : Specification.endpointsOf settings v' = Specification.endpointsOf settings v := by
    rw [Specification.endpointsOf, Specification.endpointsOf, hMember _ (by decide)]
  rw [Specification.ofDocument, Specification.ofDocument]
  simp only [hMember "info" (by decide), hEndpoints, hComponents, hFields "servers" (by decide),
    hFields "security" (by decide)]

end Normal

end ClientGen.Api

namespace ClientGen

open ClientGen.Api ClientGen.Document ClientGen.Document.Value ClientGen.Schema

-- ---------------------------------------------------------------------------
-- Documents
-- ---------------------------------------------------------------------------

/-- The documents list their paths and their component schemas in any order and are otherwise
the same. -/
def Reordered (document document' : Value) : Prop :=
  ∃ middle, ShuffledAt ["paths"] document middle ∧
    ShuffledAt ["components", "schemas"] middle document'

/-- **The order of a document does not matter.** Take a document in which no two references lead to
each other and no reference points to its paths, its component schemas or what is around them. If
it can be expanded, so can each document that lists them in another order, and the run that follows
is the same, with the same remarks and the same outcome. -/
theorem generate_reordered {settings : Settings} {document document' expanded : Value}
    (hKeyed : document.wellKeyed = true) (hLoops : LoopsOnly document)
    (hPaths : Unseen document ["paths"]) (hSchemas : Unseen document ["components", "schemas"])
    (hReordered : Reordered document document')
    (hExpanded : (expand document).outcome = .ok expanded) :
    ∃ expanded', (expand document').outcome = .ok expanded' ∧
      generate settings expanded' = generate settings expanded := by
  obtain ⟨middle, hFirst, hSecond⟩ := hReordered
  obtain ⟨between, hBetween, hShuffled⟩ := expand_shuffled hFirst hKeyed hLoops hPaths hExpanded
  have hMiddleKeyed := hFirst.wellKeyed hKeyed
  obtain ⟨expanded', hExpanded', hShuffled'⟩ := expand_shuffled hSecond hMiddleKeyed
    (hPaths.agree hFirst hKeyed hLoops).loops' (hSchemas.shuffled hFirst hKeyed) hBetween
  refine ⟨expanded', hExpanded', ?_⟩
  rw [generate, generate, ofDocument_schemas hShuffled' (expand_wellKeyed hMiddleKeyed hBetween),
    ofDocument_paths hShuffled (expand_wellKeyed hKeyed hExpanded)]

/-- A document with these paths and component schemas. -/
def catalogue (paths schemas : Entries) : Value :=
  .map [(.str "info", .map []), (.str "paths", .map paths),
    (.str "components", .map [(.str "schemas", .map schemas)])]

/-- A reference. -/
def pointing (ref : String) : Value := .map [(.str "$ref", .str ref)]

/-- An operation that sends what a reference stands for. -/
def sending (ref : String) : Value :=
  .map [(.str "post", .map [(.str "requestBody", .map [(.str "content", .map [
    (.str "application/json", .map [(.str "schema", pointing ref)])])])])]

/-- A schema that refers to itself and to another one. -/
def treeSchema : Value :=
  .map [(.str "properties", .map [(.str "left", pointing "#/components/schemas/Tree"),
    (.str "leaf", pointing "#/components/schemas/Leaf")])]

/-- Two paths and the schemas of trees and leaves. -/
def treeCatalogue : Value :=
  catalogue
    [(.str "/trees", sending "#/components/schemas/Tree"),
      (.str "/leaves", sending "#/components/schemas/Leaf")]
    [(.str "Tree", treeSchema), (.str "Leaf", .map [])]

/-- The same in another order. -/
def treeCatalogue' : Value :=
  catalogue
    [(.str "/leaves", sending "#/components/schemas/Leaf"),
      (.str "/trees", sending "#/components/schemas/Tree")]
    [(.str "Leaf", .map []), (.str "Tree", treeSchema)]

theorem shuffledAt_paths {paths paths' schemas : Entries} (h : paths.Perm paths')
    (hTexts : ∀ e ∈ paths, e.1.isText = true) :
    ShuffledAt ["paths"] (catalogue paths schemas) (catalogue paths' schemas) :=
  ⟨_, _, rfl, rfl, .cons ⟨rfl, Or.inl rfl⟩ (.cons ⟨rfl, Or.inr ⟨rfl, _, _, rfl, rfl, h, hTexts⟩⟩
    (.cons ⟨rfl, Or.inl rfl⟩ .nil))⟩

theorem shuffledAt_schemas {paths schemas schemas' : Entries} (h : schemas.Perm schemas')
    (hTexts : ∀ e ∈ schemas, e.1.isText = true) :
    ShuffledAt ["components", "schemas"] (catalogue paths schemas) (catalogue paths schemas') :=
  ⟨_, _, rfl, rfl, .cons ⟨rfl, Or.inl rfl⟩ (.cons ⟨rfl, Or.inl rfl⟩ (.cons ⟨rfl, Or.inr ⟨rfl, _, _,
    rfl, rfl, .cons ⟨rfl, Or.inr ⟨rfl, _, _, rfl, rfl, h, hTexts⟩⟩ .nil⟩⟩ .nil))⟩

theorem generate_treeCatalogue :
    ∃ expanded expanded', (expand treeCatalogue).outcome = .ok expanded ∧
      (expand treeCatalogue').outcome = .ok expanded' ∧
      generate {} expanded' = generate {} expanded := by
  obtain ⟨expanded, hExpanded⟩ : ∃ expanded, (expand treeCatalogue).outcome = .ok expanded := by
    refine exists_expand_ok ?_
    rintro ref hMem ⟨hOther, -⟩
    revert ref
    decide +kernel
  have hLoops : LoopsOnly treeCatalogue :=
    loopsOnly_of_rank (fun ref => if ref.endsWith "Tree" then 1 else 0) (by decide +kernel)
  have hReordered : Reordered treeCatalogue treeCatalogue' :=
    ⟨_, shuffledAt_paths (.swap _ _ _) (by decide +kernel),
      shuffledAt_schemas (.swap _ _ _) (by decide +kernel)⟩
  obtain ⟨expanded', hExpanded', hSame⟩ := generate_reordered (by decide +kernel) hLoops
    ⟨by decide +kernel, by decide +kernel⟩ ⟨by decide +kernel, by decide +kernel⟩ hReordered hExpanded
  exact ⟨expanded, expanded', hExpanded, hExpanded', hSame⟩

/-- An operation and other members. -/
def listing (members : Entries) : Value :=
  .map ((.str "get", .map [(.str "operationId", .str "list")]) :: members)

/-- A document with two paths and two more nodes. -/
def aliases (paths : Entries) (i j : Value) : Value :=
  .map [(.str "info", .map []), (.str "paths", .map paths), (.str "i", i), (.str "j", j)]

/-- The paths stand for nodes that lead to each other: the first one is an alias of the second,
which refers to the first. -/
def mutualAliases (paths : Entries) : Value :=
  aliases paths (pointing "#/j") (listing [(.str "x", pointing "#/i")])

/-- The paths to both nodes. -/
def aliasPaths : Entries := [(.str "/a", pointing "#/i"), (.str "/b", pointing "#/j")]

/-- A node that was expanded from a pointer, where the reference inside it was left in place. -/
def listingFrom (ref : String) : Value :=
  listing [(.str "x", pointing "#/i"), (.str originKey, .str ref)]

/-- The alias where it was expanded inside its own target. -/
def openAlias : Value := .map [(.str "$ref", .str "#/j"), (.str originKey, .str "#/i")]

/-- The aliases where the first one is expanded first. -/
def aliasesInOrder : Value :=
  aliases [(.str "/a", listingFrom "#/i"), (.str "/b", listingFrom "#/j")] (listingFrom "#/j")
    (listing [(.str "x", listingFrom "#/i")])

/-- The aliases where the second one is expanded first. -/
def aliasesReversed : Value :=
  aliases
    [(.str "/b", listing [(.str "x", openAlias), (.str originKey, .str "#/j")]), (.str "/a", openAlias)]
    (listing [(.str "x", openAlias), (.str originKey, .str "#/j")]) (listing [(.str "x", openAlias)])

/-- Once there is a specification whose units can be written, a client is generated, and it names the
endpoints of the specification. -/
theorem exists_generated {settings : Settings} {document : Value} {s : Specification}
    (hSpecification : (Specification.ofDocument settings document).outcome = .ok s)
    (hKeys : (s.endpoints.map Endpoint.key).Nodup)
    (hUnits : (do
      let registry ← Enumeration.collect settings.tables s
      let resolution ← Naming.resolve settings s.endpoints
      Unit.unitsOf settings s registry resolution.names).outcome.toOption.isSome = true) :
    ∃ g, (generate settings document).outcome = .ok g ∧
      g.names.keys = s.endpoints.map Endpoint.key := by
  obtain ⟨units, hUnits⟩ := exists_of_toOption_isSome hUnits
  obtain ⟨registry, hRegistry, hUnits⟩ := Journal.exists_of_bind_ok hUnits
  obtain ⟨resolution, hResolution, hUnits⟩ := Journal.exists_of_bind_ok hUnits
  refine ⟨⟨s, registry, resolution.names, units, resolution.collisions⟩, ?_,
    (Naming.resolve_tracks hKeys hResolution).keys⟩
  simp only [generate, Journal.outcome_bind, hSpecification, ok_bind, hRegistry, hResolution, hUnits]
  rfl

/-- The operation at one of the paths. -/
def aliasEndpoint (path segment collection : String) : Endpoint where
  name := "list"
  method := .get
  path := path
  segments := [segment]
  collection := collection

/-- A specification of nothing but endpoints. -/
def aliasSpecification (endpoints : List Endpoint) : Specification where
  name := .null
  description := .null
  endpoints := endpoints

/-- Where two references lead to each other the order matters: if the second path is
expanded first, the first one is left without its operation. -/
theorem generate_mutualAliases :
    Unseen (mutualAliases aliasPaths) ["paths"] ∧
      Unseen (mutualAliases aliasPaths) ["components", "schemas"] ∧
      Reordered (mutualAliases aliasPaths) (mutualAliases aliasPaths.reverse) ∧
      (expand (mutualAliases aliasPaths)).outcome = .ok aliasesInOrder ∧
      (expand (mutualAliases aliasPaths.reverse)).outcome = .ok aliasesReversed ∧
      (∃ g, (generate {} aliasesInOrder).outcome = .ok g ∧ g.names.keys = ["GET /a", "GET /b"]) ∧
      ∃ g, (generate {} aliasesReversed).outcome = .ok g ∧ g.names.keys = ["GET /b"] := by
  have hInOrder : (Specification.ofDocument {} aliasesInOrder).outcome =
      .ok (aliasSpecification [aliasEndpoint "/a" "a" "A", aliasEndpoint "/b" "b" "B"]) := by
    -- texts are unfolded by equations from all over the library, which is imported whole for that
    cbv
  have hReversed : (Specification.ofDocument {} aliasesReversed).outcome =
      .ok (aliasSpecification [aliasEndpoint "/b" "b" "B"]) := by
    cbv
  refine ⟨⟨by decide +kernel, by decide +kernel⟩, ⟨by decide +kernel, by decide +kernel⟩, ?_,
    by cbv, by cbv, exists_generated hInOrder (by decide +kernel) (by decide +kernel),
    exists_generated hReversed (by decide +kernel) (by decide +kernel)⟩
  refine ⟨mutualAliases aliasPaths.reverse, ⟨_, _, rfl, rfl, ?_⟩, ⟨_, _, rfl, rfl, ?_⟩⟩
  · exact .cons ⟨rfl, Or.inl rfl⟩ (.cons ⟨rfl, Or.inr ⟨rfl, _, _, rfl, rfl,
      (List.reverse_perm aliasPaths).symm, by decide +kernel⟩⟩
      (.cons ⟨rfl, Or.inl rfl⟩ (.cons ⟨rfl, Or.inl rfl⟩ .nil)))
  · exact List.forall₂_same.mpr fun _ _ => ⟨rfl, Or.inl rfl⟩

end ClientGen
