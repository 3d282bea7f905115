import ClientGen.Proofs.Naming.Identifiers
import ClientGen.Proofs.Naming.Locality
import ClientGen.Proofs.Naming.RequestMembers

/-!
# Resolved names are legal

Whatever endpoints and parameters are called, the names that resolution finds for them
can be written into the generated code. A name is guarded when it is made of a text, and
then made different from others by what is added to it. Each addition ends in what is no
letter, so it cannot lead back to a word that the code reserves or binds already.

Main results:

* `isNameBeside_methodName` / `IsNameBeside.choose` — the names of methods.
* `legal_of_argumentsOf` — the arguments of one endpoint.
* `resolve_legal` — all names of a run, be the keys distinct or not.
-/

namespace ClientGen.Naming

open ClientGen.Api ClientGen.Document ClientGen.Schema ClientGen.Text

-- ---------------------------------------------------------------------------
-- Methods
-- ---------------------------------------------------------------------------

theorem isIdentifierChar_toLower {c : Char} (h : isIdentifierChar c = true) :
    isIdentifierChar c.toLower = true := by
  cases hUpper : c.isUpper with
  | true => simp [isIdentifierChar, isAlphanum_iff, isAlpha_toLower hUpper]
  | false => rwa [toLower_eq_self hUpper]

theorem not_isDigit_toLower {c : Char} (h : c.isDigit = false) : c.toLower.isDigit = false := by
  cases hUpper : c.isUpper with
  | true =>
    refine Bool.eq_false_iff.mpr fun hDigit => ?_
    have hOther := not_isAlpha_of_isDigit hDigit
    rw [isAlpha_toLower hUpper] at hOther
    cases hOther
  | false => rwa [toLower_eq_self hUpper]

/-- With a small first letter an identifier stays one. -/
theorem IsIdentifier.uncapitalize {text : String} (h : IsIdentifier text) :
    IsIdentifier (uncapitalize text) := by
  obtain ⟨hSome, hChars, hStart⟩ := h
  unfold IdentifierChars at hChars
  unfold Naming.uncapitalize
  cases hText : text.toList with
  | nil => exact absurd hText hSome
  | cons c rest =>
    rw [hText] at hChars hStart
    refine ⟨?_, ?_, ?_⟩
    · rw [String.toList_ofList]
      exact List.cons_ne_nil _ _
    · intro d hd
      rw [String.toList_ofList] at hd
      rcases List.mem_cons.mp hd with rfl | hd
      · exact isIdentifierChar_toLower (hChars c List.mem_cons_self)
      · exact hChars d (List.mem_cons_of_mem _ hd)
    · rw [String.toList_ofList]
      exact not_isDigit_toLower hStart

/-- A method is a name of the language that resources do not have yet, whatever the endpoint is called. -/
theorem isNameBeside_methodName (name : String) : IsNameBeside reservedMethods (methodName name) := by
  have hPlain : IsIdentifier (uncapitalize (identifier (camel name) "call")) :=
    (isIdentifier_identifier (by decide) _).uncapitalize
  unfold methodName
  dsimp only
  generalize uncapitalize (identifier (camel name) "call") = plain at hPlain
  split
  · exact hPlain.beside_append lettered_reservedMethods (c := '_') (by decide) (by decide) (by decide)
  · rename_i hFree
    rw [Bool.or_eq_true, not_or] at hFree
    exact ⟨⟨hPlain, Bool.not_eq_true _ ▸ hFree.1⟩,
      fun hMem => hFree.2 (List.contains_iff_mem.mpr hMem)⟩

/-- A name beside words of letters is followed by its duplicates. -/
theorem IsNameBeside.duplicate {words : List String} (hWords : Lettered words) {base : String}
    (hBase : IsNameBeside words base) (n : Nat) : IsNameBeside words (Claims.duplicate base n) := by
  have hMarked : IsIdentifier (base ++ "Duplicate") := hBase.append (by decide)
  exact hMarked.beside_number hWords n

/-- What is chosen instead of a name that is taken is such a name again. -/
theorem IsNameBeside.choose {words : List String} (hWords : Lettered words) {base : String}
    (hBase : IsNameBeside words base) (c : Claims) : IsNameBeside words (c.choose base).1 := by
  cases hTaken : c.taken base with
  | false =>
    rw [Claims.choose_of_not_taken hTaken]
    exact hBase
  | true =>
    obtain ⟨n, hChoice, -⟩ := Claims.choose_of_taken hTaken
    rw [hChoice]
    exact hBase.duplicate hWords n

-- ---------------------------------------------------------------------------
-- Arguments
-- ---------------------------------------------------------------------------

/-- The search for an argument ends: it is the name that is wanted, or this name with the first number
that makes it free. -/
def ArgumentEnds (used : List String) (k : Slot × String) (name : String) : Prop :=
  ∃ n, IsFirstFree used.contains (numbered (wantedArgument used k.1 k.2) "") 1 n ∧
    name = numbered (wantedArgument used k.1 k.2) "" n

/-- The names of arguments that an endpoint can have. -/
structure LegalArguments (settings : Settings) (e : Endpoint) (arguments : Arguments) : Prop where
  /-- the parameters that are not left out have one, in order, and no others have -/
  places : arguments.keys.map placeOfKey = (passed settings e).map placeOf
  /-- each of them has one only -/
  distinct : arguments.Distinct
  /-- and it is different from those of the others, in all slots -/
  apart : arguments.values.Nodup
  names : ∀ name ∈ arguments.values, IsNameBeside reservedArguments name
  ends : ∀ before k name, before ++ [(k, name)] <+: arguments →
    ArgumentEnds (Dictionary.values before) k name

theorem argumentEnds_freshArgument (used : List String) (k : Slot × String) :
    ArgumentEnds used k (freshArgument used.reverse k.1 k.2) := by
  have hContains : used.reverse.contains = used.contains := funext fun _ => List.contains_reverse
  have hWanted : wantedArgument used.reverse k.1 k.2 = wantedArgument used k.1 k.2 := by
    rw [wantedArgument, hContains, wantedArgument]
  obtain ⟨n, hn, hName⟩ := freshArgument_isFirstFree used.reverse k.1 k.2
  rw [hContains, hWanted] at hn
  rw [hWanted] at hName
  exact ⟨n, hn, hName⟩

/-- Where parameters in one slot have different names, their arguments are legal. -/
theorem legal_of_argumentsOf {settings : Settings} {e : Endpoint} {arguments : Arguments}
    (hApart : ∀ slot, SiblingsApart (e.parameters slot))
    (h : argumentsOf settings e = .ok arguments) : LegalArguments settings e arguments := by
  obtain ⟨used, hChosen⟩ := argumentsOf_chosen_of_siblings hApart h
  refine ⟨hChosen.places, hChosen.distinct, hChosen.apart,
    argumentsOf_values isNameBeside_freshArgument h, ?_⟩
  intro before k name hPrefix
  rw [hChosen.inTurn before k name hPrefix]
  exact argumentEnds_freshArgument _ k

-- ---------------------------------------------------------------------------
-- Resolution
-- ---------------------------------------------------------------------------

/-- The search for a method ends: it has the name that is wanted if this is free, or the duplicate of it
with the first number after the last one that makes it free. -/
def MethodEnds (c : Claims) (base name : String) : Prop :=
  (c.taken base = false ∧ name = base) ∨
    c.taken base = true ∧ ∃ n, IsFirstFree c.taken (Claims.duplicate base) (c.counter + 1) n ∧
      name = Claims.duplicate base n

theorem methodEnds_choose (c : Claims) (base : String) : MethodEnds c base (c.choose base).1 := by
  cases hTaken : c.taken base with
  | false => exact Or.inl ⟨hTaken, congrArg Prod.fst (Claims.choose_of_not_taken hTaken)⟩
  | true =>
    obtain ⟨n, hChoice, hn⟩ := Claims.choose_of_taken hTaken
    exact Or.inr ⟨hTaken, n, hn, congrArg Prod.fst hChoice⟩

/-- The names that an endpoint can have after some others. -/
structure LegalNames (settings : Settings) (before : List Endpoint) (e : Endpoint) (n : ResolvedName) :
    Prop where
  method : IsNameBeside reservedMethods n.methodName
  request : IsName n.requestClass
  suffix : n.requestClass.endsWith "Request" = true
  arguments : LegalArguments settings e n.arguments
  ends : MethodEnds (claimsAfter settings (groupOf settings e) before) (methodName e.name) n.methodName

theorem legal_nameWith {settings : Settings} {e : Endpoint} {arguments : Arguments}
    (h : LegalArguments settings e arguments) (before : List Endpoint) :
    LegalNames settings before e (nameWith settings e (choiceAfter settings before e).1 arguments) where
  method := by
    rw [nameWith_methodName]
    exact (isNameBeside_methodName e.name).choose lettered_reservedMethods _
  request := by
    rw [nameWith_requestClass]
    exact isName_requestClass _
  suffix := by
    rw [nameWith_requestClass]
    exact endsWith_requestClass _
  arguments := h
  ends := by
    rw [nameWith_methodName]
    exact methodEnds_choose _ _

/--
**Resolved names are legal.** For all endpoints whose parameters have texts as names, different ones in
each slot, and under all settings: there are names for them, one for each key. The arguments found for
each endpoint are legal, and what is found under a key are legal names of the last endpoint that has it.
-/
theorem resolve_legal (settings : Settings) {endpoints : List Endpoint}
    (hText : ∀ e ∈ endpoints, ∀ slot, ∀ p ∈ e.parameters slot, p.name.isText = true)
    (hApart : ∀ e ∈ endpoints, ∀ slot, SiblingsApart (e.parameters slot)) :
    ∃ r, (resolve settings endpoints).outcome = .ok r ∧ r.names.Distinct ∧
      (∀ key, key ∈ r.names.keys ↔ key ∈ endpoints.map Endpoint.key) ∧
      (∀ e ∈ endpoints, ∃ arguments, argumentsOf settings e = .ok arguments ∧
        LegalArguments settings e arguments) ∧
      ∀ key n, r.names.get? key = some n → ∃ before e after, endpoints = before ++ e :: after ∧
        e.key = key ∧ key ∉ after.map Endpoint.key ∧ argumentsOf settings e = .ok n.arguments ∧
        LegalNames settings before e n := by
  obtain ⟨r, hRun⟩ : ∃ r, (resolve settings endpoints).outcome = .ok r := exists_resolve_ok hText
  obtain ⟨hDistinct, hKeys⟩ := resolve_keys hRun
  refine ⟨r, hRun, hDistinct, hKeys, fun e he => ?_, fun key n hFound => ?_⟩
  · obtain ⟨arguments, hArguments⟩ := exists_argumentsOf_ok settings (hText e he)
    exact ⟨arguments, hArguments, legal_of_argumentsOf (hApart e he) hArguments⟩
  · obtain ⟨before, e, after, arguments, rfl, hKey, hLast, hArguments, rfl⟩ :=
      exists_nameWith_of_get? hRun hFound
    have hLegal := legal_of_argumentsOf (hApart e (by simp)) hArguments
    exact ⟨before, e, after, rfl, hKey, hLast, hArguments, legal_nameWith hLegal before⟩

/-- An endpoint that shares names of parameters between its slots, and two that share their method. -/
def awkwardEndpoints : List Endpoint := [
  { endpointCalling ["status"] ["status", "größe"] ["status_body", "self"] ["Status", "class"] with
    name := "Connector" },
  { endpointCalling [] [] [] [] with name := "9 Leben", path := "/nine" },
  { endpointCalling [] [] [] [] with name := "9-leben", path := "/lives" }]

/-- The arguments that are found for endpoints. -/
def argumentNames (r : Resolution) : List (List String) := r.names.map fun entry => entry.2.arguments.values

/-- Their names are legal. -/
theorem legal_awkwardEndpoints :
    ∃ r, (resolve {} awkwardEndpoints).outcome = .ok r ∧
      methodNames r = ["connector_", "call9Leben", "call9LebenDuplicate1"] ∧
      argumentNames r = [["status", "status_body", "gr_e", "status_body_query", "self_",
        "status_header", "class_"], [], []] ∧
      ∀ key n, r.names.get? key = some n → ∃ before e, LegalNames {} before e n := by
  have hText : ∀ e ∈ awkwardEndpoints, ∀ slot, ∀ p ∈ e.parameters slot, p.name.isText = true := by
    intro e he
    simp only [awkwardEndpoints, List.mem_cons, List.not_mem_nil, or_false] at he
    rcases he with rfl | rfl | rfl <;> exact isText_endpointCalling
  have hApart : ∀ e ∈ awkwardEndpoints, ∀ slot, SiblingsApart (e.parameters slot) := by
    intro e he
    simp only [awkwardEndpoints, List.mem_cons, List.not_mem_nil, or_false] at he
    rcases he with rfl | rfl | rfl <;>
      exact siblingsApart_endpointCalling (by decide) (by decide) (by decide) (by decide)
  obtain ⟨r, hRun, -, -, -, hLegal⟩ := resolve_legal {} hText hApart
  have hNames : (resolve {} awkwardEndpoints).outcome.toOption.map methodNames =
      some ["connector_", "call9Leben", "call9LebenDuplicate1"] := by
    decide +kernel
  have hArguments : (resolve {} awkwardEndpoints).outcome.toOption.map argumentNames =
      some [["status", "status_body", "gr_e", "status_body_query", "self_", "status_header",
        "class_"], [], []] := by
    decide +kernel
  rw [hRun] at hNames hArguments
  refine ⟨r, hRun, Option.some.inj hNames, Option.some.inj hArguments, fun key n hFound => ?_⟩
  obtain ⟨before, e, -, -, -, -, -, hNames⟩ := hLegal key n hFound
  exact ⟨before, e, hNames⟩

end ClientGen.Naming
