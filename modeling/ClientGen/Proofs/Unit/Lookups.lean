import ClientGen.Proofs.Api.Normal
import ClientGen.Proofs.Api.PathParameters
import ClientGen.Proofs.Naming.Passed
import ClientGen.Unit.Argument
import Mathlib

/-!
# Which paths can be rebuilt

A request unit rebuilds the path of its endpoint. It looks up the names between the braces of each
segment among the path parameters, which were made before from a search of the whole path. Where
a name was not found by this search, because it is empty or has a brace inside, there is a parameter
for it only if it is declared, and the unit cannot be made if it is not.

Main results:

* `urlFormat_succeeds` — the look-ups decide whether there is a URL.
* `exists_pathArgument_iff` — what is found are the path parameters.
* `url_of_readings` — both readings of the placeholders of an operation, and what follows for its URL.
-/

namespace ClientGen.Unit

open ClientGen.Api ClientGen.Document ClientGen.Naming ClientGen.Path ClientGen.Schema

variable {α β : Type}

-- ---------------------------------------------------------------------------
-- Look-ups
-- ---------------------------------------------------------------------------

/-- The computation succeeds where the condition holds, and fails with the fault where it does not. -/
def SucceedsIff (fault : Fault) (P : Prop) (x : Except Fault α) : Prop :=
  (P ∧ ∃ a, x = .ok a) ∨ (¬ P ∧ x = .error fault)

namespace SucceedsIff

variable {fault : Fault} {P Q : Prop} {x : Except Fault α}

theorem of_iff (h : SucceedsIff fault P x) (hPQ : P ↔ Q) : SucceedsIff fault Q x :=
  h.imp (And.imp_left hPQ.mp) (And.imp_left fun hNot hQ => hNot (hPQ.mpr hQ))

/-- What goes on without a fault decides nothing. -/
theorem bind_ok (h : SucceedsIff fault P x) (f : α → β) :
    SucceedsIff fault P (x >>= fun a => .ok (f a)) := by
  rcases h with ⟨hP, a, rfl⟩ | ⟨hNot, rfl⟩
  · exact Or.inl ⟨hP, f a, rfl⟩
  · exact Or.inr ⟨hNot, rfl⟩

/-- A traversal succeeds where all its steps do. -/
theorem mapM {f : α → Except Fault β} {P : α → Prop} {xs : List α}
    (h : ∀ x ∈ xs, SucceedsIff fault (P x) (f x)) : SucceedsIff fault (∀ x ∈ xs, P x) (xs.mapM f) := by
  induction xs with
  | nil => exact Or.inl ⟨fun _ hMem => absurd hMem List.not_mem_nil, [], rfl⟩
  | cons x xs ih =>
    obtain ⟨hHead, hTail⟩ := List.forall_mem_cons.mp h
    rw [List.mapM_cons, List.forall_mem_cons]
    rcases hHead with ⟨hP, y, hy⟩ | ⟨hNot, hFault⟩
    · rw [hy, ok_bind]
      exact ((ih hTail).bind_ok (y :: ·)).of_iff (iff_and_self.mpr fun _ => hP)
    · rw [hFault]
      exact Or.inr ⟨fun hBoth => hNot hBoth.1, rfl⟩

end SucceedsIff

/-- There is an argument for the path parameter of the name. -/
def HasArgument (resolved : ResolvedName) (name : String) : Prop :=
  ∃ argument, resolved.arguments.get? (.path, name) = some argument

theorem pieceText_succeeds (resolved : ResolvedName) (p : Piece) :
    SucceedsIff (.misuse .key) (∀ name ∈ p.name?, HasArgument resolved name) (pieceText resolved p) := by
  cases p with
  | text cs => exact Or.inl ⟨fun _ hName => absurd hName (Option.not_mem_none _), _, rfl⟩
  | placeholder name =>
    rw [pieceText]
    split
    · rename_i argument hArgument
      refine Or.inl ⟨fun name hName => ?_, _, rfl⟩
      cases hName
      exact ⟨argument, hArgument⟩
    · rename_i hNone
      refine Or.inr ⟨fun hAll => ?_, rfl⟩
      obtain ⟨argument, hArgument⟩ := hAll _ rfl
      rw [hNone] at hArgument
      cases hArgument

/-- **Look-ups.** The URL can be made exactly if there is an argument for each name that is looked up. -/
theorem urlFormat_succeeds (e : Endpoint) (resolved : ResolvedName) :
    SucceedsIff (.misuse .key) (∀ name ∈ lookedUp e.segments, HasArgument resolved name)
      (urlFormat e resolved) := by
  have hSegment : ∀ segment : String, SucceedsIff (.misuse .key)
      (∀ name ∈ namesIn segment.toList, HasArgument resolved name)
      ((Path.pieces segment.toList).mapM (pieceText resolved) >>= fun texts => .ok (String.join texts)) := by
    intro segment
    have hPieces : SucceedsIff (.misuse .key)
        (∀ p ∈ Path.pieces segment.toList, ∀ name ∈ p.name?, HasArgument resolved name)
        ((Path.pieces segment.toList).mapM (pieceText resolved)) :=
      SucceedsIff.mapM fun p _ => pieceText_succeeds resolved p
    refine (hPieces.bind_ok String.join).of_iff ?_
    rw [namesIn, List.forall_mem_filterMap]
    exact Iff.rfl
  rw [lookedUp, List.forall_mem_flatMap]
  exact (SucceedsIff.mapM fun segment _ => hSegment segment).bind_ok fun texts =>
    "/" ++ "/".intercalate texts

/-- Among endpoints with different keys, just the path parameters of an endpoint have arguments. -/
theorem hasArgument_iff {settings : Settings} {endpoints : List Endpoint} {r : Resolution} {e : Endpoint}
    {resolved : ResolvedName} (hApart : ∀ slot, AllApart (e.parameters slot))
    (hKeys : (endpoints.map Endpoint.key).Nodup) (hNames : (resolve settings endpoints).outcome = .ok r)
    (he : e ∈ endpoints) (hResolved : r.names.get? e.key = some resolved) (name : String) :
    HasArgument resolved name ↔ ∃ p ∈ e.pathParameters, p.name = .str name := by
  obtain ⟨before, after, rfl⟩ := List.append_of_mem he
  obtain ⟨arguments, hArguments, hFound⟩ := (resolve_tracks hKeys hNames).names before e
    ⟨after, by rw [List.append_assoc, List.singleton_append]⟩
  obtain ⟨used, hChosen⟩ := argumentsOf_chosen hApart hArguments
  have hOwn : resolved.arguments = arguments := by
    rw [← Option.some.inj (hFound.symm.trans hResolved)]
    rfl
  unfold HasArgument
  rw [hOwn]
  constructor
  · rintro ⟨argument, hArgument⟩
    obtain ⟨p, hp, hName⟩ := hChosen.exists_parameter hArgument
    exact ⟨p, mem_passed_path.mp hp, hName⟩
  · rintro ⟨p, hp, hName⟩
    obtain ⟨key, argument, hKey, hArgument⟩ :=
      hChosen.exists_get? (mem_passed_path.mpr hp : (Slot.path, p) ∈ passed settings e)
    cases hName.symm.trans hKey
    exact ⟨argument, hArgument⟩

-- ---------------------------------------------------------------------------
-- Operations
-- ---------------------------------------------------------------------------

/-- How the two readings of the placeholders of an endpoint compare, where these path parameters are
declared for it. -/
structure Readings (e : Endpoint) (declared : List Parameter) : Prop where
  /-- the path parameters are those declared, and one for each other name that is found, in order -/
  parameters : e.pathParameters = completed declared (placeholders e.path.toList)
  /-- what is found within segments is what is left of the names that are looked up, in order -/
  found : (placeholders e.path.toList).filter withinSegment =
    (lookedUp e.segments).filterMap innermost?
  /-- the readings are the same exactly if they hold nothing improper and nothing beyond a segment -/
  agree : lookedUp e.segments = placeholders e.path.toList ↔
    (∀ name ∈ lookedUp e.segments, ProperName name) ∧
      ∀ name ∈ placeholders e.path.toList, '/' ∉ name.toList
  /-- a name that is looked up has a parameter exactly if it is proper or declared -/
  covered : ∀ name ∈ lookedUp e.segments, (Parameter.named e.pathParameters (.str name) = true ↔
    ProperName name ∨ Parameter.named declared (.str name) = true)
  /-- a parameter that was added is left of a name that is looked up unless it goes beyond a segment -/
  added : ∀ name ∈ undeclared declared (placeholders e.path.toList),
    ('/' ∉ name.toList ↔ ∃ outer ∈ lookedUp e.segments, innermost? outer = some name)

/-- Names that are found are proper. -/
theorem properName_of_placeholders {cs : List Char} {name : String} (h : name ∈ placeholders cs) :
    ProperName name := by
  obtain ⟨hSome, hPlain, -⟩ := mem_placeholders h
  exact ⟨hSome, fun hOpen => absurd (hPlain _ hOpen) (by decide)⟩

theorem readings_of_completed {e : Endpoint} {declared : List Parameter}
    (hParameters : e.pathParameters = completed declared (placeholders e.path.toList))
    (hSegments : e.segments = segmentsOf e.path) : Readings e declared where
  parameters := hParameters
  found := hSegments ▸ placeholders_eq_lookedUp e.path
  agree := hSegments ▸ readings_agree_iff e.path
  covered := by
    intro name hName
    rw [hSegments] at hName
    rw [hParameters, named_completed_iff, or_comm]
    exact or_congr_left ⟨properName_of_placeholders, mem_placeholders_of_lookedUp hName⟩
  added := by
    intro name hName
    rw [hSegments]
    exact within_iff_of_placeholders (mem_undeclared_iff.mp hName).1

/--
**Placeholders and look-ups.** For every operation that an endpoint is made of, the two readings of the
placeholders of its path compare as `Readings` says. Where it is resolved under any settings, among any
endpoints with different methods or paths, the URL of its request can be made exactly if each name that is
looked up is proper or declared; otherwise the look-up of a key fails. If the readings are the
same, then it can be made, and all names for which parameters were added are looked up.
-/
theorem url_of_readings {settings : Settings} {method : String} {path operation pathLevel : Value}
    {e : Endpoint} (hKeyed : operation.wellKeyed = true)
    (hOperation : (Endpoint.ofOperation settings method path operation pathLevel).outcome = .ok e) :
    ∃ label own declared, Endpoint.parameterList (operation.field? "parameters") label = .ok own ∧
      (declaredParameters pathLevel own label).outcome = .ok declared ∧ Readings e declared.path ∧
      ∀ (settings : Settings) (endpoints : List Endpoint) (r : Resolution) (resolved : ResolvedName),
        (endpoints.map Endpoint.key).Nodup → (resolve settings endpoints).outcome = .ok r →
        e ∈ endpoints → r.names.get? e.key = some resolved →
          SucceedsIff (.misuse .key) (∀ name ∈ lookedUp e.segments,
            ProperName name ∨ Parameter.named declared.path (.str name) = true) (urlFormat e resolved) ∧
          (lookedUp e.segments = placeholders e.path.toList →
            (∃ url, urlFormat e resolved = .ok url) ∧
            ∀ name ∈ undeclared declared.path (placeholders e.path.toList),
              name ∈ lookedUp e.segments) := by
  obtain ⟨label, own, declared, hOwn, hDeclared, hParameters, hSegments⟩ :=
    exists_declared_of_ofOperation hOperation
  have hReadings := readings_of_completed hParameters hSegments
  refine ⟨label, own, declared, hOwn, hDeclared, hReadings, ?_⟩
  intro settings endpoints r resolved hKeys hNames he hResolved
  have hApart := (ofOperation_normal hKeyed hOperation).2.2
  have hUrl : SucceedsIff (.misuse .key) (∀ name ∈ lookedUp e.segments,
      ProperName name ∨ Parameter.named declared.path (.str name) = true) (urlFormat e resolved) := by
    refine (urlFormat_succeeds e resolved).of_iff (forall₂_congr fun name hName => ?_)
    rw [hasArgument_iff hApart hKeys hNames he hResolved, ← named_iff, hReadings.covered name hName]
  refine ⟨hUrl, fun hSame => ⟨?_, fun name hName => hSame ▸ (mem_undeclared_iff.mp hName).1⟩⟩
  rcases hUrl with ⟨-, hMade⟩ | ⟨hNot, -⟩
  · exact hMade
  · exact absurd (fun name hName => Or.inl ((hReadings.agree.mp hSame).1 name hName)) hNot

/-- An operation without parameters. -/
def showFile : Value := .map [(.str "operationId", .str "showFile")]

/-- Its endpoint at a path with empty braces. -/
def emptyBraces : Endpoint where
  name := "showFile"
  method := .get
  path := "/files/\x7b\x7d"
  segments := ["files", "\x7b\x7d"]
  collection := "Files"

/-- Its endpoint at a path with braces around a slash. -/
def slashInBraces : Endpoint where
  name := "showFile"
  method := .get
  path := "/files/\x7ba/b\x7d"
  segments := ["files", "\x7ba", "b\x7d"]
  collection := "Files"
  pathParameters := [Endpoint.placeholderParameter "a/b"]

theorem ofOperation_emptyBraces :
    (Endpoint.ofOperation {} "get" (.str emptyBraces.path) showFile (.list [])).outcome =
      .ok emptyBraces := by
  -- texts are unfolded by equations from all over the library, which is imported whole for that
  cbv

theorem ofOperation_slashInBraces :
    (Endpoint.ofOperation {} "get" (.str slashInBraces.path) showFile (.list [])).outcome =
      .ok slashInBraces := by
  cbv

/-- For one operation an empty name is looked up and not found, so that there is no URL. For the other one a
parameter is added for a name that is not looked up. -/
theorem readings_differ :
    ((Endpoint.ofOperation {} "get" (.str emptyBraces.path) showFile (.list [])).outcome = .ok emptyBraces ∧
      placeholders emptyBraces.path.toList = [] ∧ lookedUp emptyBraces.segments = [""] ∧
      ∃ r resolved, (resolve {} [emptyBraces]).outcome = .ok r ∧
        r.names.get? emptyBraces.key = some resolved ∧
        urlFormat emptyBraces resolved = .error (.misuse .key)) ∧
    (Endpoint.ofOperation {} "get" (.str slashInBraces.path) showFile (.list [])).outcome =
        .ok slashInBraces ∧
      placeholders slashInBraces.path.toList = ["a/b"] ∧ lookedUp slashInBraces.segments = [] ∧
      slashInBraces.pathParameters = [Endpoint.placeholderParameter "a/b"] := by
  refine ⟨⟨ofOperation_emptyBraces, by decide, by decide, ?_⟩, ofOperation_slashInBraces, by decide,
    by decide, rfl⟩
  have hApart := (ofOperation_normal (by decide +kernel) ofOperation_emptyBraces).2.2
  have hKeys : ([emptyBraces].map Endpoint.key).Nodup := List.nodup_singleton _
  obtain ⟨r, hNames⟩ : ∃ r, (resolve {} [emptyBraces]).outcome = .ok r := exists_resolve_ok (by
    intro e he slot p hp
    rw [List.mem_singleton.mp he] at hp
    cases slot <;> cases hp)
  obtain ⟨_, -, hResolved⟩ := (resolve_tracks hKeys hNames).names [] emptyBraces (List.prefix_refl _)
  refine ⟨r, _, hNames, hResolved, ?_⟩
  rcases urlFormat_succeeds emptyBraces _ with ⟨hAll, -⟩ | ⟨-, hFault⟩
  · obtain ⟨p, hp, -⟩ := (hasArgument_iff hApart hKeys hNames List.mem_cons_self hResolved "").mp
      (hAll "" (by decide))
    cases hp
  · exact hFault

/-- An operation that declares one path parameter. -/
def showPost : Value :=
  .map [(.str "operationId", .str "showPost"), (.str "parameters", .list [
    .map [(.str "name", .str "id"), (.str "in", .str "path")]])]

/-- Its endpoint at a path with two placeholders. -/
def showPostEndpoint : Endpoint where
  name := "showPost"
  method := .get
  path := "/users/\x7buser-id\x7d/posts/\x7bid\x7d"
  segments := ["users", "\x7buser-id\x7d", "posts", "\x7bid\x7d"]
  collection := "Users"
  pathParameters := [{ kind := .dynamic, nullable := true, name := .str "id" },
    Endpoint.placeholderParameter "user-id"]

theorem ofOperation_showPost :
    (Endpoint.ofOperation {} "get" (.str showPostEndpoint.path) showPost (.list [])).outcome =
      .ok showPostEndpoint := by
  cbv

/-- The other one is found and looked up, so there is a URL. -/
theorem url_of_showPost :
    ∃ declared r resolved url, Readings showPostEndpoint declared ∧
      lookedUp showPostEndpoint.segments = ["user-id", "id"] ∧
      (resolve {} [showPostEndpoint]).outcome = .ok r ∧
      r.names.get? showPostEndpoint.key = some resolved ∧
      urlFormat showPostEndpoint resolved = .ok url := by
  obtain ⟨_, _, declared, -, -, hReadings, hUrl⟩ := url_of_readings (by decide +kernel) ofOperation_showPost
  have hKeys : ([showPostEndpoint].map Endpoint.key).Nodup := List.nodup_singleton _
  obtain ⟨r, hNames⟩ : ∃ r, (resolve {} [showPostEndpoint]).outcome = .ok r := exists_resolve_ok (by
    intro e he slot p hp
    rw [List.mem_singleton.mp he] at hp
    cases slot with
    | path =>
      have hAll : showPostEndpoint.pathParameters.all (·.name.isText) = true := rfl
      exact List.all_eq_true.mp hAll p hp
    | query => cases hp
    | body => cases hp
    | header => cases hp)
  obtain ⟨_, -, hResolved⟩ := (resolve_tracks hKeys hNames).names [] showPostEndpoint (List.prefix_refl _)
  obtain ⟨url, hMade⟩ := ((hUrl {} _ r _ hKeys hNames List.mem_cons_self hResolved).2 (by decide)).1
  exact ⟨declared.path, r, _, url, hReadings, by decide, hNames, hResolved, hMade⟩

end ClientGen.Unit
