import ClientGen.Proofs.Naming.Passed
import ClientGen.Proofs.Text.Literals
import ClientGen.Proofs.Unit.Closure
import ClientGen.Proofs.Unit.MethodTexts
import Mathlib

/-!
# Parameters reach the request

A parameter has a slot and a name in the document, an argument in the constructor, and a
key in the method that builds the values of its slot. The three are made by different
passes: the resolver names arguments and skips what is left out, the arguments of a
unit are what is found under slot and name, and a builder takes the arguments of its
slot. This module shows that they fit together: what a builder sends under the name of a
parameter is read from the argument of that parameter, and the method of the resource
hands on each argument under its own name.

What an expression reads is read off its text (`attributesRead`), and what is written for a
constructor and for a builder is said there (`constructorText`, `builderText`).

Main results:

* `carries_of_ofEndpoint` — the arguments of a unit belong to the parameters that are
  not left out, one each and in order.
* `attributesRead_valueText` — the value of an argument reads its own attribute only.
* `request_wired` — no parameter of a request is dropped or crossed with another.
-/

namespace ClientGen.Unit

open ClientGen.Api ClientGen.Document ClientGen.Enumeration ClientGen.Naming ClientGen.Schema
  ClientGen.Text

-- ---------------------------------------------------------------------------
-- Reading expressions
-- ---------------------------------------------------------------------------

/-- The attributes of `self` that are read in a text. The first argument says whether a name may start
here: inside another name or behind a dot, `self` is part of something else. -/
def readsFrom : Bool → List Char → List String
  | _, [] => []
  | fresh, c :: rest =>
    (if fresh && "self.".toList.isPrefixOf (c :: rest) then
        [.ofList ((rest.drop 4).takeWhile isIdentifierChar)] else [])
      ++ readsFrom (!(isIdentifierChar c || c == '.')) rest

/-- The attributes of `self` that an expression reads, in order. -/
def attributesRead (expression : String) : List String := readsFrom true expression.toList

/-- Inside a name nothing is read. -/
theorem readsFrom_word {word : List Char} (h : ∀ c ∈ word, isIdentifierChar c = true)
    (rest : List Char) : readsFrom false (word ++ rest) = readsFrom false rest := by
  induction word with
  | nil => rfl
  | cons c word ih =>
    obtain ⟨hHead, hTail⟩ := List.forall_mem_cons.mp h
    rw [List.cons_append, readsFrom, hHead]
    exact ih hTail

/-- An attribute is read up to the end of its name. -/
theorem readsFrom_self {word rest : List Char} (h : ∀ c ∈ word, isIdentifierChar c = true)
    (hEnd : ∀ c ∈ rest.head?, isIdentifierChar c = false) :
    readsFrom true ("self.".toList ++ (word ++ rest)) = .ofList word :: readsFrom false rest := by
  have hName : (word ++ rest).takeWhile isIdentifierChar = word := by
    rw [List.takeWhile_append_of_pos h]
    cases rest with
    | nil => simp
    | cons c rest => simp [hEnd c rfl]
  have hStart : readsFrom true ("self.".toList ++ (word ++ rest)) =
      .ofList ((word ++ rest).takeWhile isIdentifierChar) :: readsFrom false (word ++ rest) := rfl
  rw [hStart, hName, readsFrom_word h]

/-- The value that is sent for an argument reads the attribute of this argument, and no other. -/
theorem attributesRead_valueText {a : Argument} (h : IsSnake a.name) :
    attributesRead a.valueText ≠ [] ∧ ∀ read ∈ attributesRead a.valueText, read = a.name := by
  have hChars := isIdentifierChar_of_snake h
  have hOnce : ∀ rest : String, (∀ c ∈ rest.toList.head?, isIdentifierChar c = false) →
      attributesRead ("self." ++ a.name ++ rest) = a.name :: readsFrom false rest.toList := by
    intro rest hEnd
    rw [attributesRead, String.toList_append, String.toList_append, List.append_assoc,
      readsFrom_self hChars hEnd, String.ofList_toList]
  have hStored : attributesRead ("self." ++ a.name) = [a.name] := by
    rw [← String.append_empty (s := "self." ++ a.name)]
    exact hOnce "" (by simp)
  unfold Argument.valueText
  dsimp only
  split
  · rw [hStored]
    simp
  · split
    · -- the attribute is read a second time in the condition
      have hCondition : ∀ rest, readsFrom false (".value if ".toList ++ rest) = readsFrom true rest :=
        fun _ => rfl
      have hBlank : ∀ c ∈ " is not None else None".toList.head?, isIdentifierChar c = false :=
        fun c hc => by cases hc; rfl
      have hTwice : attributesRead ("self." ++ a.name ++ ".value if " ++ ("self." ++ a.name) ++
          " is not None else None") = [a.name, a.name] := by
        rw [String.append_assoc, String.append_assoc, hOnce]
        · rw [String.toList_append, hCondition, String.toList_append, String.toList_append,
            List.append_assoc, readsFrom_self hChars hBlank, String.ofList_toList]
          rfl
        · rw [String.toList_append]
          exact fun c hc => by cases hc; rfl
      rw [hTwice]
      simp
    · have hOne : attributesRead ("self." ++ a.name ++ ".value") = [a.name] :=
        hOnce ".value" fun c hc => by cases hc; rfl
      rw [hOne]
      simp

-- ---------------------------------------------------------------------------
-- Arguments
-- ---------------------------------------------------------------------------

variable {settings : Settings} {e : Endpoint} {resolved : ResolvedName} {registry : Registry}
  {used : List String}

/-- The argument is that of the parameter: it stands for its slot and its name, and is called what was
chosen for these. -/
structure Carries (arguments : Arguments) (s : Slot × Parameter) (a : Argument) : Prop where
  slot : a.slot = s.1
  key : s.2.name = .str a.key
  name : arguments.get? (s.1, a.key) = some a.name

section Carrying

variable (hChosen : Chosen (passed settings e) resolved.arguments used)
include hChosen

/-- A parameter that is left out has no argument. -/
theorem ofParameter?_ignored {s : Slot × Parameter} (h : isPassed settings s = false) :
    Argument.ofParameter? e resolved registry s.1 s.2 = .ok none := by
  unfold Argument.ofParameter?
  split
  · rename_i key hName
    have hIgnored : settings.ignores s.1 (.str key) = true := by
      rw [isPassed, hName] at h
      simpa using h
    rw [hChosen.get?_eq_none hIgnored]
  · rfl

/-- A parameter that is passed has one. -/
theorem ofParameter?_passed {s : Slot × Parameter} (hs : s ∈ passed settings e)
    {made : Option Argument} (h : Argument.ofParameter? e resolved registry s.1 s.2 = .ok made) :
    ∃ a, made = some a ∧ Carries resolved.arguments s a := by
  obtain ⟨key, name, hKey, hName⟩ := hChosen.exists_get? hs
  simp only [Argument.ofParameter?, hKey, hName] at h
  split at h
  · obtain ⟨enum?, -, h⟩ := exists_of_bind_ok h
    cases h
    exact ⟨_, rfl, rfl, hKey, hName⟩
  · cases h
    exact ⟨_, rfl, rfl, hKey, hName⟩

/-- It can be made if the enumeration of the parameter, should it have one, is registered. -/
theorem exists_ofParameter?_ok {s : Slot × Parameter}
    (hEnum : isPassed settings s = true → s.2.hasEnum = true →
      ∃ name, registry.nameAt ⟨e.key, s.1.name, [s.2.name]⟩ = .ok name) :
    ∃ made, Argument.ofParameter? e resolved registry s.1 s.2 = .ok made := by
  by_cases hPassed : isPassed settings s = true
  · unfold Argument.ofParameter?
    split
    · split
      · exact ⟨none, rfl⟩
      · by_cases hHas : s.2.hasEnum = true
        · obtain ⟨name, hName⟩ := hEnum hPassed hHas
          rw [if_pos hHas, hName]
          exact ⟨_, rfl⟩
        · rw [if_neg hHas]
          exact ⟨_, rfl⟩
    · exact ⟨none, rfl⟩
  · exact ⟨none, ofParameter?_ignored hChosen (Bool.not_eq_true _ ▸ hPassed)⟩

end Carrying

/-- A traversal that drops some items makes something of each of the others. -/
theorem forall₂_of_mapM_filterMap {α β ε : Type} {f : α → Except ε (Option β)} {p : α → Bool}
    {R : α → β → Prop} {xs : List α} {made : List (Option β)} (h : xs.mapM f = .ok made)
    (hDropped : ∀ x ∈ xs, p x = false → f x = .ok none)
    (hKept : ∀ x ∈ xs, p x = true → ∀ y, f x = .ok y → ∃ b, y = some b ∧ R x b) :
    List.Forall₂ R (xs.filter p) (made.filterMap id) := by
  induction xs generalizing made with
  | nil =>
    cases h
    exact .nil
  | cons x xs ih =>
    rw [List.mapM_cons] at h
    obtain ⟨y, hy, h⟩ := exists_of_bind_ok h
    obtain ⟨ys, hys, h⟩ := exists_of_bind_ok h
    cases h
    obtain ⟨hHead, hTail⟩ := List.forall_mem_cons.mp hDropped
    obtain ⟨hHeadKept, hTailKept⟩ := List.forall_mem_cons.mp hKept
    have hRest := ih hys hTail hTailKept
    cases hp : p x with
    | false =>
      cases (hHead hp).symm.trans hy
      simpa [hp] using hRest
    | true =>
      obtain ⟨b, rfl, hR⟩ := hHeadKept hp y hy
      simpa [hp] using And.intro hR hRest

/-- **Arguments.** The arguments of a unit belong to the parameters that are not left out, one each and
in order. -/
theorem carries_of_ofEndpoint (hChosen : Chosen (passed settings e) resolved.arguments used)
    {arguments : List Argument} (h : Argument.ofEndpoint e resolved registry = .ok arguments) :
    List.Forall₂ (Carries resolved.arguments) (passed settings e) arguments := by
  obtain ⟨made, hMade, h⟩ := exists_of_bind_ok h
  cases h
  have hMade : (slotted e).mapM (fun s => Argument.ofParameter? e resolved registry s.1 s.2) =
      .ok made := hMade
  rw [← filter_slotted]
  refine forall₂_of_mapM_filterMap hMade (fun s _ hOut => ofParameter?_ignored hChosen hOut) ?_
  intro s hs hIn made hStep
  have hPassed : s ∈ passed settings e := filter_slotted ▸ List.mem_filter.mpr ⟨hs, hIn⟩
  exact ofParameter?_passed hChosen hPassed hStep

theorem exists_ofEndpoint_ok (hChosen : Chosen (passed settings e) resolved.arguments used)
    (hEnums : ∀ slot, ∀ p ∈ kept settings e slot, p.hasEnum = true →
      ∃ name, registry.nameAt ⟨e.key, slot.name, [p.name]⟩ = .ok name) :
    ∃ arguments, Argument.ofEndpoint e resolved registry = .ok arguments := by
  have hEach : ∀ s ∈ slotted e, ∃ made,
      Argument.ofParameter? e resolved registry s.1 s.2 = .ok made := by
    intro s hs
    refine exists_ofParameter?_ok hChosen fun hIn hHas => ?_
    exact hEnums s.1 s.2 (List.mem_filter.mpr ⟨mem_slotted hs, hIn⟩) hHas
  obtain ⟨made, hMade⟩ := exists_mapM_ok hEach
  have hMade : (Slot.passing.flatMap fun slot => (e.parameters slot).map fun p => (slot, p)).mapM
      (fun s => Argument.ofParameter? e resolved registry s.1 s.2) = .ok made := hMade
  refine ⟨made.filterMap id, ?_⟩
  unfold Argument.ofEndpoint
  dsimp only
  rw [hMade, ok_bind]
  rfl

section Carried

variable {names : Arguments} {parameters : List (Slot × Parameter)} {arguments : List Argument}
  (hCarries : List.Forall₂ (Carries names) parameters arguments)
include hCarries

/-- Slots and keys of the arguments are those of the parameters. -/
theorem places_of_carries :
    arguments.map (fun a => placeOfKey (a.slot, a.key)) = parameters.map placeOf := by
  induction hCarries with
  | nil => rfl
  | cons hHead _ ih =>
    exact congrArg₂ List.cons (Prod.ext hHead.slot hHead.key.symm) ih

theorem exists_of_carried {a : Argument} (ha : a ∈ arguments) :
    ∃ s ∈ parameters, Carries names s a := by
  induction hCarries with
  | nil => cases ha
  | cons hHead _ ih =>
    rcases List.mem_cons.mp ha with rfl | ha
    · exact ⟨_, List.mem_cons_self, hHead⟩
    · obtain ⟨s, hs, hCarried⟩ := ih ha
      exact ⟨s, List.mem_cons_of_mem _ hs, hCarried⟩

end Carried

/-- Arguments have different places, and so different names. -/
theorem arguments_apart (hChosen : Chosen (passed settings e) resolved.arguments used)
    {arguments : List Argument}
    (hCarries : List.Forall₂ (Carries resolved.arguments) (passed settings e) arguments) :
    (arguments.map fun a => (a.slot, a.key)).Nodup ∧ (arguments.map Argument.name).Nodup := by
  have hKeys : arguments.map (fun a => (a.slot, a.key)) = resolved.arguments.keys := by
    refine List.map_injective_iff.mpr (fun _ _ => placeOfKey_inj) ?_
    rw [List.map_map, hChosen.places]
    exact places_of_carries hCarries
  have hPlaces : (arguments.map fun a => (a.slot, a.key)).Nodup :=
    hKeys ▸ Dictionary.distinct_iff_nodup.mp hChosen.distinct
  refine ⟨hPlaces, ?_⟩
  rw [List.nodup_iff_pairwise_ne, List.pairwise_map] at hPlaces ⊢
  refine hPlaces.imp_of_mem ?_
  intro a b ha hb hDiffer hSame
  obtain ⟨s, -, hs⟩ := exists_of_carried hCarries ha
  obtain ⟨t, -, ht⟩ := exists_of_carried hCarries hb
  refine hDiffer (hChosen.key_inj (?_ : _ = some a.name) ?_)
  · rw [hs.slot]
    exact hs.name
  · rw [ht.slot, hSame]
    exact ht.name

-- ---------------------------------------------------------------------------
-- Builders and methods
-- ---------------------------------------------------------------------------

/-- The method that builds what a request sends in a slot. The path is filled without one. -/
def builderName? : Slot → Option String
  | .body => some "default_body"
  | .query => some "default_query"
  | .header => some "default_headers"
  | .path => none

/-- What is sent by the builder of a name: the keys with the expressions for their values. -/
def sentBy (builders : List Builder) (method : String) : List (String × String) :=
  builders.flatMap fun b => if b.method = method then b.entries else []

/-- Builders without entries can be left out. -/
theorem sentBy_nonempty {builders : List Builder} {method : String} :
    sentBy (builders.filter (! ·.entries.isEmpty)) method = sentBy builders method := by
  induction builders with
  | nil => rfl
  | cons b builders ih =>
    cases hEntries : b.entries with
    | nil => simpa [sentBy, hEntries] using ih
    | cons _ _ => simpa [sentBy, hEntries] using ih

/-- A builder sends the arguments of its slot. -/
theorem sentBy_buildersOf {slot : Slot} {method : String} {arguments : List Argument}
    (h : builderName? slot = some method) :
    sentBy (Request.buildersOf arguments) method =
      (arguments.filter (·.slot == slot)).map fun a => (a.key, a.valueText) := by
  unfold Request.buildersOf
  rw [sentBy_nonempty]
  cases slot with
  | path => cases h
  | _ =>
    cases h
    simp [sentBy, Request.builderMethods]

/-- Its keys are the names of the parameters of the slot. -/
theorem sentBy_keys {names : Arguments} {arguments : List Argument} {slot : Slot} {method : String}
    (hCarries : List.Forall₂ (Carries names) (passed settings e) arguments)
    (h : builderName? slot = some method) :
    (sentBy (Request.buildersOf arguments) method).map (fun entry => Value.str entry.1) =
      (kept settings e slot).map Parameter.name := by
  have hPlaces := congrArg (fun places => (places.filter (·.1 == slot)).map Prod.snd)
    (places_of_carries hCarries)
  simp only [List.filter_map, List.map_map, Function.comp_def, placeOfKey, placeOf] at hPlaces
  rw [sentBy_buildersOf h, List.map_map]
  have hFilter : (passed settings e).filter (·.1 == slot) =
      (kept settings e slot).map fun p => (slot, p) := filter_passed slot
  have hSlot := congrArg (List.map fun s => s.2.name) hFilter
  rw [List.map_map] at hSlot
  exact hPlaces.trans hSlot

/-- What the parts of a request unit have to do with the parameters of its endpoint. -/
structure Wired (settings : Settings) (e : Endpoint) (unit : Request) : Prop where
  /-- one argument for each parameter that is not left out, and they all have different names -/
  arguments : unit.arguments.map (fun a => (a.slot, Value.str a.key)) =
    (passed settings e).map fun s => (s.1, s.2.name)
  places : (unit.arguments.map fun a => (a.slot, a.key)).Nodup
  names : (unit.arguments.map Argument.name).Nodup
  /-- the class ends with its methods, all with different names: the constructor that takes and keeps the
  arguments, if there are any, the path and the builders -/
  methods : ∃ decoding : Option MethodText, (∀ m ∈ decoding, m.name = "create_dto_from_response") ∧
    ((methodTexts unit ++ decoding.toList).map MethodText.name).Nodup ∧
    (methodTexts unit ++ decoding.toList).flatMap MethodText.lines <:+ unit.lines
  /-- a builder sends the parameters of its slot that are not left out, in order and each once -/
  keys : ∀ slot method, builderName? slot = some method →
    (sentBy unit.builders method).map (fun entry => Value.str entry.1) =
      (kept settings e slot).map Parameter.name
  once : ∀ slot method, builderName? slot = some method →
    ((sentBy unit.builders method).map Prod.fst).Nodup
  /-- and takes each value from the argument of the parameter -/
  values : ∀ slot method, builderName? slot = some method →
    ∀ entry ∈ sentBy unit.builders method, ∃ a ∈ unit.arguments, a.slot = slot ∧ a.key = entry.1 ∧
      attributesRead entry.2 ≠ [] ∧ ∀ read ∈ attributesRead entry.2, read = a.name
  /-- what is written for a key denotes the key -/
  literals : ∀ b ∈ unit.builders, ∀ entry ∈ b.entries, denoted? (quoted entry.1) = some entry.1

/-- The method takes the arguments of the request and hands them on, each to itself. -/
structure HandsOn (unit : Request) (method : ResourceMethod) : Prop where
  arguments : method.arguments = unit.arguments
  request : method.requestClass = unit.className
  signature : signatureLines method.name unit.arguments <:+: Resource.methodLines method
  call : "            " ++ method.localName?.getD method.requestClass ++ "(" ++
    ", ".intercalate (unit.arguments.map fun a => a.name ++ "=" ++ a.name) ++ ")" ∈
      Resource.methodLines method

theorem request_wired_of_chosen (hChosen : Chosen (passed settings e) resolved.arguments used)
    (hSnake : AllSnake resolved.arguments) {unit : Request}
    (h : Request.ofEndpoint settings e resolved registry = .ok unit) : Wired settings e unit := by
  have hArguments := (exists_of_request_ok h).1
  have hBuilders : unit.builders = Request.buildersOf unit.arguments := by
    obtain ⟨arguments, -, h⟩ := exists_of_bind_ok h
    obtain ⟨url, -, h⟩ := exists_of_bind_ok h
    cases h
    rfl
  have hCarries := carries_of_ofEndpoint hChosen hArguments
  obtain ⟨hPlaces, hNames⟩ := arguments_apart hChosen hCarries
  refine ⟨places_of_carries hCarries, hPlaces, hNames, ?_, ?_, ?_, ?_,
    fun _ _ entry _ => denoted?_quoted entry.1⟩
  · obtain ⟨decoding, hName, hText⟩ := methodTexts_suffix unit
    exact ⟨decoding, hName, methodTexts_apart hBuilders hName, hText⟩
  · intro slot method hMethod
    rw [hBuilders]
    exact sentBy_keys hCarries hMethod
  · intro slot method hMethod
    rw [hBuilders, sentBy_buildersOf hMethod, List.map_map]
    -- within a slot, different places are different keys
    rw [List.nodup_iff_pairwise_ne, List.pairwise_map] at hPlaces ⊢
    refine (hPlaces.sublist List.filter_sublist).imp_of_mem ?_
    intro a b ha hb hDiffer hSame
    have haSlot := beq_iff_eq.mp (List.mem_filter.mp ha).2
    have hbSlot := beq_iff_eq.mp (List.mem_filter.mp hb).2
    exact hDiffer (Prod.ext (haSlot.trans hbSlot.symm) hSame)
  · intro slot method hMethod entry hEntry
    rw [hBuilders, sentBy_buildersOf hMethod] at hEntry
    obtain ⟨a, ha, rfl⟩ := List.mem_map.mp hEntry
    obtain ⟨ha, hSlot⟩ := List.mem_filter.mp ha
    obtain ⟨s, -, hCarried⟩ := exists_of_carried hCarries ha
    have hOwn : IsSnake a.name := by
      obtain ⟨named, hNamed, -, hName⟩ := Dictionary.exists_of_get? hCarried.name
      exact hSnake a.name (hName ▸ List.mem_map_of_mem hNamed)
    exact ⟨a, ha, beq_iff_eq.mp hSlot, rfl, attributesRead_valueText hOwn⟩

theorem exists_handsOn {unit : Request} (h : Request.ofEndpoint settings e resolved registry = .ok unit)
    (className : String) :
    ∃ method, Resource.methodOf className registry (e, resolved) = .ok method ∧ HandsOn unit method := by
  obtain ⟨hArguments, hClass, -⟩ := exists_of_request_ok h
  unfold Resource.methodOf
  dsimp only
  rw [hArguments, ok_bind]
  refine ⟨_, rfl, rfl, hClass.symm, signatureLines_infix _, ?_⟩
  unfold Resource.methodLines Resource.passedOn
  simp

/-- The unit of a resource holds the method of each of its members. -/
theorem method_written {className : String} {members : List (Endpoint × ResolvedName)} {r : Resource}
    (hUnit : Resource.ofMembers settings className members registry = .ok r)
    {m : Endpoint × ResolvedName} (hm : m ∈ members) {method : ResourceMethod}
    (hMethod : Resource.methodOf className registry m = .ok method) :
    Resource.methodLines method <:+: r.lines := by
  obtain ⟨methods, hMethods, h⟩ := exists_of_bind_ok hUnit
  cases h
  obtain ⟨made, hMem, hMade⟩ := exists_right_of_forall₂ (mapM_eq_ok_iff.mp hMethods) m hm
  cases hMade.symm.trans hMethod
  exact methodLines_infix hMem

-- ---------------------------------------------------------------------------
-- All endpoints
-- ---------------------------------------------------------------------------

/-- The endpoint was made of an operation of some document. -/
def OfOperation (e : Endpoint) : Prop :=
  ∃ (settings : Settings) (method : String) (path operation pathLevel : Value),
    operation.wellKeyed = true ∧
      (Endpoint.ofOperation settings method path operation pathLevel).outcome = .ok e

/--
**No parameter is dropped or crossed.** For all settings and all endpoints that are made of
operations, with the names that are resolved for them: the request unit and the method of the resource
can be made if the enumerations of the parameters are registered and, for the unit, the
path can be rebuilt; the unit has an argument for just the parameters that are not left out, its
builders send just these under their names and read the value from their own argument, and
the method hands on all arguments, each to itself. In the text of the unit the constructor takes and
keeps these arguments and no others, and the builders are written out; the method is written in the unit
of its resource. No path parameter is left out.
-/
theorem request_wired {endpoints : List Endpoint} {r : Resolution}
    (hMade : ∀ e ∈ endpoints, OfOperation e) (hKeys : (endpoints.map Endpoint.key).Nodup)
    (hNames : (resolve settings endpoints).outcome = .ok r) :
    ∀ e ∈ endpoints, kept settings e .path = e.pathParameters ∧
      ∃ resolved, r.names.get? e.key = some resolved ∧ ∀ registry : Registry,
        ((∀ slot, ∀ p ∈ kept settings e slot, p.hasEnum = true →
            ∃ name, registry.nameAt ⟨e.key, slot.name, [p.name]⟩ = .ok name) →
          (∀ className, ∃ method, Resource.methodOf className registry (e, resolved) = .ok method) ∧
          ((∃ unit, Request.ofEndpoint settings e resolved registry = .ok unit) ↔
            ∃ url, urlFormat e resolved = .ok url)) ∧
        ∀ unit, Request.ofEndpoint settings e resolved registry = .ok unit →
          Wired settings e unit ∧ ∀ className, ∃ method,
            Resource.methodOf className registry (e, resolved) = .ok method ∧ HandsOn unit method ∧
            ∀ members resource, (e, resolved) ∈ members →
              Resource.ofMembers settings className members registry = .ok resource →
              Resource.methodLines method <:+: resource.lines := by
  intro e he
  obtain ⟨_, _, _, _, _, hKeyed, hOperation⟩ := hMade e he
  have hApart := (ofOperation_normal hKeyed hOperation).2.2
  obtain ⟨before, after, rfl⟩ := List.append_of_mem he
  obtain ⟨arguments, hArguments, hFound⟩ :=
    (resolve_tracks hKeys hNames).names before e ⟨after, by rw [List.append_assoc, List.singleton_append]⟩
  obtain ⟨used, hChosen⟩ := argumentsOf_chosen hApart hArguments
  refine ⟨kept_path settings e, _, hFound, fun registry => ⟨?_, ?_⟩⟩
  · intro hEnums
    obtain ⟨made, hOk⟩ : ∃ made, Argument.ofEndpoint e (nameWith settings e
        (choiceAfter settings before e).1 arguments) registry = .ok made :=
      exists_ofEndpoint_ok hChosen hEnums
    refine ⟨fun className => ?_, ?_, ?_⟩
    · unfold Resource.methodOf
      dsimp only
      rw [hOk]
      exact ⟨_, rfl⟩
    · rintro ⟨unit, hUnit⟩
      obtain ⟨_, -, hUnit⟩ := exists_of_bind_ok hUnit
      obtain ⟨url, hUrl, -⟩ := exists_of_bind_ok hUnit
      exact ⟨url, hUrl⟩
    · rintro ⟨url, hUrl⟩
      unfold Request.ofEndpoint
      dsimp only
      rw [hOk, ok_bind, hUrl]
      exact ⟨_, rfl⟩
  · intro unit hUnit
    refine ⟨request_wired_of_chosen hChosen (argumentsOf_snake hArguments) hUnit, fun className => ?_⟩
    obtain ⟨method, hMethod, hHandsOn⟩ := exists_handsOn hUnit className
    exact ⟨method, hMethod, hHandsOn, fun _ _ hMember hResource => method_written hResource hMember hMethod⟩

/-- An operation whose parameters share names across slots and, in snake case, within one. -/
def showUser : Value :=
  .map [(.str "operationId", .str "showUser"), (.str "parameters", .list [
    .map [(.str "name", .str "id"), (.str "in", .str "path")],
    .map [(.str "name", .str "id"), (.str "in", .str "query")],
    .map [(.str "name", .str "userId"), (.str "in", .str "query")],
    .map [(.str "name", .str "trace"), (.str "in", .str "query")],
    .map [(.str "name", .str "user_id"), (.str "in", .str "query")],
    .map [(.str "name", .str "X-Kind"), (.str "in", .str "header"),
      (.str "schema", .map [(.str "type", .str "string"),
        (.str "enum", .list [.str "short", .str "long"])])]])]

/-- Settings that leave one of them out. -/
def withoutTrace : Settings := { ignoredQuery := ["trace"] }

/-- A registry with the enumeration of another one. -/
def kinds : Registry where
  assignments := [(⟨"GET /users/{id}", "header", [.str "X-Kind"]⟩, "Kind")]

/-- A parameter that may be left unset, without a schema. -/
def unspecified (name : String) : Parameter where
  kind := .dynamic
  nullable := true
  name := .str name

/-- Its endpoint. -/
def showUserEndpoint : Endpoint where
  name := "showUser"
  method := .get
  path := "/users/{id}"
  segments := ["users", "{id}"]
  collection := "Users"
  pathParameters := [unspecified "id"]
  queryParameters := ["id", "userId", "trace", "user_id"].map unspecified
  headerParameters := [{ unspecified "X-Kind" with
    kind := .text
    enumValues := some [.str "short", .str "long"] }]

/-- What its request takes and sends: the arguments and the entries of the query and the headers. -/
def showUserPasses : Except Fault (List String × List (String × String) × List (String × String)) := do
  let r ← (resolve withoutTrace [showUserEndpoint]).outcome
  let resolved ← (r.names.get? showUserEndpoint.key).elim (.error (.misuse .key)) .ok
  let unit ← Request.ofEndpoint withoutTrace showUserEndpoint resolved kinds
  return (unit.arguments.map Argument.name, sentBy unit.builders "default_query",
    sentBy unit.builders "default_headers")

theorem ofOperation_showUser :
    (Endpoint.ofOperation {} "get" (.str "/users/{id}") showUser (.list [])).outcome =
      .ok showUserEndpoint := by
  -- texts are unfolded by equations from all over the library, which is imported whole for that
  cbv

/-- Its arguments are told apart, and each value is read from the right one. -/
theorem request_showUser :
    ∃ r resolved unit, (resolve withoutTrace [showUserEndpoint]).outcome = .ok r ∧
      r.names.get? showUserEndpoint.key = some resolved ∧
      Request.ofEndpoint withoutTrace showUserEndpoint resolved kinds = .ok unit ∧
      unit.arguments.map Argument.name = ["id", "id_query", "user_id", "user_id_query", "x_kind"] ∧
      Wired withoutTrace showUserEndpoint unit := by
  have hPasses : showUserPasses = .ok (["id", "id_query", "user_id", "user_id_query", "x_kind"],
      [("id", "self.id_query"), ("userId", "self.user_id"), ("user_id", "self.user_id_query")],
      [("X-Kind", "self.x_kind.value if self.x_kind is not None else None")]) :=
    ok_of_toOption (by decide +kernel)
  obtain ⟨r, hNames, h⟩ := exists_of_bind_ok hPasses
  obtain ⟨resolved, hFound, h⟩ := exists_of_bind_ok h
  obtain ⟨unit, hUnit, h⟩ := exists_of_bind_ok h
  have hArguments := (Prod.mk.inj (Except.ok.inj h)).1
  have hMade : ∀ e ∈ [showUserEndpoint], OfOperation e := by
    intro e he
    rw [List.mem_singleton.mp he]
    exact ⟨{}, _, _, _, _, by decide +kernel, ofOperation_showUser⟩
  obtain ⟨-, resolved', hFound', hRegistry⟩ :=
    request_wired hMade (List.nodup_singleton _) hNames _ List.mem_cons_self
  rw [hFound'] at hFound
  cases hFound
  exact ⟨r, resolved, unit, hNames, hFound', hUnit, hArguments, ((hRegistry kinds).2 unit hUnit).1⟩

end ClientGen.Unit
