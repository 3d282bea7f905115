import ClientGen.Generate
import ClientGen.Proofs.Api.Normal
import ClientGen.Proofs.Api.PathParameters
import ClientGen.Proofs.Naming.Arguments
import ClientGen.Proofs.Path.Template
import Mathlib

/-!
# Different paths have different URLs

A request unit rebuilds the path of its endpoint with a formatted string. The string
can be read back: undoing its escapes and blanking its fields leaves the path with its
placeholders blanked, but for the slashes at its ends, which are not written back.
So two endpoints share a URL only if their paths differ in nothing but these slashes
and the names of their placeholders.

Main results:

* `sketch_url` — what is read back from the formatted string of an endpoint.
* `url_ne_of_path_ne` — different paths have different URLs, unless they differ in
  slashes at their ends.
* `url_of_trailing_slash` — where they do so, they share one.
-/

namespace ClientGen.Unit

open ClientGen.Api ClientGen.Document ClientGen.Enumeration ClientGen.Naming ClientGen.Path
  ClientGen.Text

-- ---------------------------------------------------------------------------
-- Reading formatted strings
-- ---------------------------------------------------------------------------

/-- The characters of a formatted string without the expressions in its fields. A doubled brace opens
no field. The first argument says whether a field is open. -/
def blankFieldsFrom : Bool → List Char → List Char
  | _, [] => []
  | true, c :: rest =>
    if c == closeBrace then c :: blankFieldsFrom false rest else blankFieldsFrom true rest
  | false, [c] => [c]
  | false, c :: d :: rest =>
    if c == openBrace then
      if d == openBrace then c :: d :: blankFieldsFrom false rest
      else c :: blankFieldsFrom true (d :: rest)
    else c :: blankFieldsFrom false (d :: rest)

/-- The formatted string with `{}` for every field. -/
def blankFields (format : String) : String := .ofList (blankFieldsFrom false format.toList)

/-- A formatted string with blanked fields, without its escapes. -/
def unescape : List Char → List Char
  | [] => []
  | [c] => [c]
  | c :: d :: rest =>
    if c == backslash || ((c == openBrace || c == closeBrace) && c == d) then d :: unescape rest
    else if c == openBrace && d == closeBrace then c :: d :: unescape rest
    else c :: unescape (d :: rest)

/-- What a formatted string says but for its expressions. -/
def sketch (format : List Char) : List Char := unescape (blankFieldsFrom false format)

theorem blankFieldsFrom_cons {c : Char} (h : c ≠ openBrace) (rest : List Char) :
    blankFieldsFrom false (c :: rest) = c :: blankFieldsFrom false rest := by
  cases rest with
  | nil => rfl
  | cons d rest => simp [blankFieldsFrom, h]

theorem unescape_cons {c : Char} (hEscape : c ≠ backslash) (hOpen : c ≠ openBrace)
    (hClose : c ≠ closeBrace) (rest : List Char) : unescape (c :: rest) = c :: unescape rest := by
  cases rest with
  | nil => rfl
  | cons d rest => simp [unescape, hEscape, hOpen, hClose]

/-- A character is escaped, doubled or left alone. -/
theorem formatChar_cases (c : Char) :
    (formatChar c = [backslash, c] ∧ (c = backslash ∨ c = doubleQuote)) ∨
      (formatChar c = [c, c] ∧ (c = openBrace ∨ c = closeBrace)) ∨
      (formatChar c = [c] ∧ (c ≠ backslash ∧ c ≠ doubleQuote) ∧ c ≠ openBrace ∧ c ≠ closeBrace) := by
  unfold formatChar
  by_cases hEscaped : (c == backslash || c == doubleQuote) = true
  · exact Or.inl ⟨if_pos hEscaped, by simpa using hEscaped⟩
  · rw [if_neg hEscaped]
    by_cases hBrace : (c == openBrace || c == closeBrace) = true
    · exact Or.inr (Or.inl ⟨if_pos hBrace, by simpa using hBrace⟩)
    · refine Or.inr (Or.inr ⟨if_neg hBrace, ?_⟩)
      simp only [Bool.or_eq_true, beq_iff_eq, not_or] at hEscaped hBrace
      exact ⟨hEscaped, hBrace⟩

/-- Text is read back as it was. -/
theorem sketch_formatChar (c : Char) (rest : List Char) :
    sketch (formatChar c ++ rest) = c :: sketch rest := by
  have hEscape : backslash ≠ openBrace := by decide
  have hApart : closeBrace ≠ openBrace := by decide
  unfold sketch
  rcases formatChar_cases c with ⟨hFormat, hEscaped⟩ | ⟨hFormat, rfl | rfl⟩ |
    ⟨hFormat, ⟨hOther, -⟩, hOpen, hClose⟩
  · have hOpen : c ≠ openBrace := by rcases hEscaped with rfl | rfl <;> decide
    rw [hFormat, List.cons_append, List.cons_append, List.nil_append, blankFieldsFrom_cons hEscape,
      blankFieldsFrom_cons hOpen]
    rfl
  · rw [hFormat]
    rfl
  · rw [hFormat, List.cons_append, List.cons_append, List.nil_append, blankFieldsFrom_cons hApart,
      blankFieldsFrom_cons hApart]
    rfl
  · rw [hFormat, List.singleton_append, blankFieldsFrom_cons hOpen, unescape_cons hOther hOpen hClose]

theorem sketch_formatText (cs rest : List Char) : sketch (formatText cs ++ rest) = cs ++ sketch rest := by
  induction cs with
  | nil => rfl
  | cons c cs ih =>
    rw [formatText, List.flatMap_cons, List.append_assoc, sketch_formatChar]
    exact congrArg (c :: ·) ih

theorem sketch_slash (rest : List Char) : sketch ('/' :: rest) = '/' :: sketch rest :=
  sketch_formatChar '/' rest

/-- Nothing is left of the expression in an open field. -/
theorem blankFieldsFrom_expression {expression rest : List Char} (h : closeBrace ∉ expression) :
    blankFieldsFrom true (expression ++ closeBrace :: rest) =
      closeBrace :: blankFieldsFrom false rest := by
  induction expression with
  | nil => rfl
  | cons c expression ih =>
    have hOther : (c == closeBrace) = false := by
      rw [beq_eq_false_iff_ne]
      rintro rfl
      exact h List.mem_cons_self
    rw [List.cons_append, blankFieldsFrom, hOther]
    exact ih fun hMem => h (List.mem_cons_of_mem _ hMem)

/-- A field that reads an attribute is read back as a blank one. -/
theorem sketch_field {argument : String} (h : IsSnake argument) (rest : List Char) :
    sketch (("\x7bself." ++ argument ++ "\x7d").toList ++ rest) =
      openBrace :: closeBrace :: sketch rest := by
  have hField : ("\x7bself." ++ argument ++ "\x7d").toList ++ rest =
      openBrace :: 's' :: ("elf.".toList ++ argument.toList ++ closeBrace :: rest) := by
    rw [String.toList_append, String.toList_append]
    simp [openBrace, closeBrace]
  have hExpression : closeBrace ∉ 's' :: ("elf.".toList ++ argument.toList) := by
    have hArgument : closeBrace ∉ argument.toList := fun hMem => absurd (h _ hMem) (by decide)
    rw [List.mem_cons, List.mem_append, not_or, not_or]
    exact ⟨by decide, by decide, hArgument⟩
  have hBlank : blankFieldsFrom true ('s' :: ("elf.".toList ++ argument.toList) ++ closeBrace :: rest) =
      closeBrace :: blankFieldsFrom false rest :=
    blankFieldsFrom_expression hExpression
  rw [sketch, hField]
  show unescape (openBrace :: blankFieldsFrom true (('s' :: ("elf.".toList ++ argument.toList)) ++
    closeBrace :: rest)) = _
  rw [hBlank]
  rfl

-- ---------------------------------------------------------------------------
-- The URL of an endpoint
-- ---------------------------------------------------------------------------

variable {resolved : ResolvedName}

/-- The pieces of a segment are read back with their placeholders blanked. -/
theorem sketch_pieces (hSnake : AllSnake resolved.arguments) {ps : List Piece} {texts : List String}
    (h : ps.mapM (pieceText resolved) = .ok texts) (rest : List Char) :
    sketch ((String.join texts).toList ++ rest) = ps.flatMap Piece.blank ++ sketch rest := by
  rw [String.toList_join]
  induction ps generalizing texts with
  | nil =>
    cases h
    rfl
  | cons p ps ih =>
    rw [List.mapM_cons] at h
    obtain ⟨text, hText, h⟩ := exists_of_bind_ok h
    obtain ⟨texts, hTexts, h⟩ := exists_of_bind_ok h
    cases h
    rw [List.flatMap_cons, List.flatMap_cons, List.append_assoc, List.append_assoc, ← ih hTexts]
    cases p with
    | text cs =>
      cases hText
      rw [String.toList_ofList]
      exact sketch_formatText cs _
    | placeholder name =>
      simp only [pieceText] at hText
      split at hText
      · rename_i argument hArgument
        cases hText
        obtain ⟨entry, hEntry, -, rfl⟩ := Dictionary.exists_of_get? hArgument
        exact sketch_field (hSnake _ (List.mem_map_of_mem hEntry)) _
      · cases hText

/-- The segments of a path are read back with their placeholders blanked. -/
theorem sketch_segments (hSnake : AllSnake resolved.arguments) {segments texts : List String}
    (h : (segments.mapM fun segment => do
      return String.join (← (Path.pieces segment.toList).mapM (pieceText resolved))) = .ok texts) :
    sketch (['/'].intercalate (texts.map String.toList)) =
      ['/'].intercalate ((segments.map String.toList).map blankSegment) := by
  induction segments generalizing texts with
  | nil =>
    cases h
    rfl
  | cons segment segments ih =>
    rw [List.mapM_cons] at h
    obtain ⟨text, hText, h⟩ := exists_of_bind_ok h
    obtain ⟨pieces, hPieces, hText⟩ := exists_of_bind_ok hText
    obtain ⟨rest, hRest, h⟩ := exists_of_bind_ok h
    cases hText
    cases h
    cases segments with
    | nil =>
      cases hRest
      have hEnd : sketch [] = [] := rfl
      simpa [blankSegment, hEnd] using sketch_pieces hSnake hPieces []
    | cons next segments =>
      have hTail := ih hRest
      rw [List.mapM_cons] at hRest
      obtain ⟨nextText, -, hRest⟩ := exists_of_bind_ok hRest
      obtain ⟨rest, -, hRest⟩ := exists_of_bind_ok hRest
      cases hRest
      simp only [List.map_cons] at hTail ⊢
      rw [List.intercalate_cons_cons, List.intercalate_cons_cons, List.append_assoc, List.append_assoc,
        sketch_pieces hSnake hPieces, List.singleton_append, sketch_slash, hTail]
      rfl

/-- **The URL says where it leads.** What is read back from the formatted string of an endpoint are
its segments with their placeholders blanked. -/
theorem sketch_url {e : Endpoint} {url : String} (hSnake : AllSnake resolved.arguments)
    (h : urlFormat e resolved = .ok url) :
    sketch url.toList = '/' :: ['/'].intercalate ((e.segments.map String.toList).map blankSegment) := by
  obtain ⟨texts, hTexts, h⟩ := exists_of_bind_ok h
  cases h
  rw [String.toList_append, String.toList_intercalate]
  exact (sketch_slash _).trans (congrArg ('/' :: ·) (sketch_segments hSnake hTexts))

/-- The segments of an endpoint are its path without the slashes at its ends. -/
theorem ofOperation_segments {settings : Settings} {method : String} {path operation pathLevel : Value}
    {e : Endpoint}
    (h : (Endpoint.ofOperation settings method path operation pathLevel).outcome = .ok e) :
    ['/'].intercalate (e.segments.map String.toList) = (stripSlashes e.path).toList := by
  obtain ⟨_, _, _, -, -, -, hSegments⟩ := exists_declared_of_ofOperation h
  rw [hSegments]
  exact intercalate_segmentsOf e.path

/-- An endpoint's URL determines its path, up to the slashes at its ends and the names of its
placeholders. -/
theorem blank_path_of_url {e : Endpoint} {url : String} (hSnake : AllSnake resolved.arguments)
    (hSegments : ['/'].intercalate (e.segments.map String.toList) = (stripSlashes e.path).toList)
    (h : urlFormat e resolved = .ok url) :
    blankFrom false (sketch url.toList) = '/' :: blankFrom false (stripSlashes e.path).toList := by
  have hAlike := blankAlike_segments (e.segments.map String.toList)
  rw [sketch_url hSnake h, ← hSegments, hAlike false]
  rfl

/--
**Different paths have different URLs.** For every document and all settings: if the
paths of two endpoints, without the slashes at their ends, differ in more than the
names of their placeholders, then the formatted strings of their request units differ
in more than the expressions in their fields.
-/
theorem url_ne_of_path_ne {settings : Settings} {document : Value} {s : Specification}
    {names : Resolution} {registry : Registry} {e f : Endpoint} {m n : ResolvedName} {p q : Request}
    (hSpecification : (Specification.ofDocument settings document).outcome = .ok s)
    (hNames : (resolve settings s.endpoints).outcome = .ok names)
    (he : e ∈ s.endpoints) (hf : f ∈ s.endpoints)
    (hm : names.names.get? e.key = some m) (hn : names.names.get? f.key = some n)
    (hp : Request.ofEndpoint settings e m registry = .ok p)
    (hq : Request.ofEndpoint settings f n registry = .ok q)
    (hDiffer : blankPlaceholders (stripSlashes e.path) ≠ blankPlaceholders (stripSlashes f.path)) :
    blankFields p.urlFormat ≠ blankFields q.urlFormat := by
  have hUrl : ∀ {e : Endpoint} {m : ResolvedName} {p : Request}, e ∈ s.endpoints →
      names.names.get? e.key = some m → Request.ofEndpoint settings e m registry = .ok p →
      blankFrom false (sketch p.urlFormat.toList) =
        '/' :: blankFrom false (stripSlashes e.path).toList := by
    intro e m p he hm hp
    obtain ⟨arguments, -, hp⟩ := exists_of_bind_ok hp
    obtain ⟨url, hFormat, hp⟩ := exists_of_bind_ok hp
    cases hp
    obtain ⟨entry, hEntry, -, rfl⟩ := Dictionary.exists_of_get? hm
    have hSnake := resolve_arguments_snake hNames _ (List.mem_map_of_mem hEntry)
    have hSegments := forall_endpoints (fun _ _ _ _ _ => ofOperation_segments) hSpecification e he
    exact blank_path_of_url hSnake hSegments hFormat
  intro hSame
  -- the sketch is a function of the string with blanked fields
  have hSketch : sketch p.urlFormat.toList = sketch q.urlFormat.toList :=
    congrArg unescape (String.ofList_injective hSame)
  have hPaths := hUrl he hm hp
  rw [hSketch, hUrl hf hn hq] at hPaths
  exact hDiffer (congrArg String.ofList (List.cons.inj hPaths).2.symm)

-- ---------------------------------------------------------------------------
-- Two listings
-- ---------------------------------------------------------------------------

/-- A document with an operation at each of two paths. -/
def twoListings (path path' : String) : Value :=
  .map [(.str "info", .map []), (.str "paths", .map [
    (.str path, .map [(.str "get", .map [(.str "operationId", .str "listUsers")])]),
    (.str path', .map [(.str "get", .map [(.str "operationId", .str "listAllUsers")])])])]

/-- An endpoint for users. -/
def usersEndpoint (name path : String) (segments : List String) (pathParameters : List Parameter) :
    Endpoint where
  name := name
  method := .get
  path := path
  segments := segments
  collection := "Users"
  pathParameters := pathParameters

/-- The endpoint for all users. -/
def listUsers : Endpoint := usersEndpoint "listUsers" "/users" ["users"] []

/-- A specification of nothing but two endpoints. -/
def twoEndpoints (e f : Endpoint) : Specification where
  name := .null
  description := .null
  endpoints := [e, f]

/-- The URL of an endpoint whose name is resolved among others. -/
def urlAmong? (endpoints : List Endpoint) (e : Endpoint) : Option String := do
  let r ← (resolve {} endpoints).outcome.toOption
  let n ← r.names.get? e.key
  return (← (Request.ofEndpoint {} e n {}).toOption).urlFormat

theorem exists_of_urlAmong? {endpoints : List Endpoint} {e : Endpoint} {url : String} {r : Resolution}
    (hNames : (resolve {} endpoints).outcome = .ok r) (h : urlAmong? endpoints e = some url) :
    ∃ n p, r.names.get? e.key = some n ∧ Request.ofEndpoint {} e n {} = .ok p ∧ p.urlFormat = url := by
  unfold urlAmong? at h
  rw [hNames] at h
  obtain ⟨_, hRun, h⟩ := Option.bind_eq_some_iff.mp h
  cases hRun
  obtain ⟨n, hName, h⟩ := Option.bind_eq_some_iff.mp h
  obtain ⟨p, hRequest, h⟩ := Option.bind_eq_some_iff.mp h
  exact ⟨n, p, hName, ok_of_toOption hRequest, Option.some.inj h⟩

/-- The listings of all users and of one user have different URLs. -/
theorem urls_of_placeholder :
    ∃ s names e f m n p q,
      (Specification.ofDocument {} (twoListings "/users" "/users/\x7bid\x7d")).outcome = .ok s ∧
      (resolve {} s.endpoints).outcome = .ok names ∧ s.endpoints = [e, f] ∧
      names.names.get? e.key = some m ∧ names.names.get? f.key = some n ∧
      Request.ofEndpoint {} e m {} = .ok p ∧ Request.ofEndpoint {} f n {} = .ok q ∧
      q.urlFormat = "/users/\x7bself.id\x7d" ∧ blankFields p.urlFormat ≠ blankFields q.urlFormat := by
  let showUser := usersEndpoint "listAllUsers" "/users/\x7bid\x7d" ["users", "\x7bid\x7d"]
    [{ kind := .text, nullable := false, name := .str "id" }]
  have hSpecification : (Specification.ofDocument {} (twoListings "/users" "/users/\x7bid\x7d")).outcome =
      .ok (twoEndpoints listUsers showUser) := by
    -- texts are unfolded by equations from all over the library, which is imported whole for that
    cbv
  have hUser : urlAmong? [listUsers, showUser] listUsers = some "/users" := by decide +kernel
  have hOther : urlAmong? [listUsers, showUser] showUser = some "/users/\x7bself.id\x7d" := by
    decide +kernel
  obtain ⟨names, hNames⟩ : ∃ names, (resolve {} [listUsers, showUser]).outcome = .ok names :=
    exists_of_toOption_isSome (by decide +kernel)
  obtain ⟨m, p, hm, hp, -⟩ := exists_of_urlAmong? hNames hUser
  obtain ⟨n, q, hn, hq, hUrl⟩ := exists_of_urlAmong? hNames hOther
  have hDiffer := url_ne_of_path_ne hSpecification hNames List.mem_cons_self
    (List.mem_cons_of_mem _ List.mem_cons_self) hm hn hp hq (by decide +kernel)
  exact ⟨_, names, listUsers, showUser, m, n, p, q, hSpecification, hNames, rfl, hm, hn, hp, hq, hUrl,
    hDiffer⟩

/-- Paths that differ in a slash at the end differ with their placeholders blanked, and yet their
endpoints have one URL. -/
theorem url_of_trailing_slash :
    ∃ s names e f m n p q,
      (Specification.ofDocument {} (twoListings "/users" "/users/")).outcome = .ok s ∧
      (resolve {} s.endpoints).outcome = .ok names ∧ s.endpoints = [e, f] ∧ e.method = f.method ∧
      names.names.get? e.key = some m ∧ names.names.get? f.key = some n ∧
      Request.ofEndpoint {} e m {} = .ok p ∧ Request.ofEndpoint {} f n {} = .ok q ∧
      blankPlaceholders e.path ≠ blankPlaceholders f.path ∧
      blankFields p.urlFormat = blankFields q.urlFormat := by
  let listAllUsers := usersEndpoint "listAllUsers" "/users/" ["users"] []
  have hSpecification : (Specification.ofDocument {} (twoListings "/users" "/users/")).outcome =
      .ok (twoEndpoints listUsers listAllUsers) := by
    cbv
  have hUsers : urlAmong? [listUsers, listAllUsers] listUsers = some "/users" := by decide +kernel
  have hAll : urlAmong? [listUsers, listAllUsers] listAllUsers = some "/users" := by decide +kernel
  obtain ⟨names, hNames⟩ : ∃ names, (resolve {} [listUsers, listAllUsers]).outcome = .ok names :=
    exists_of_toOption_isSome (by decide +kernel)
  obtain ⟨m, p, hm, hp, hUrl⟩ := exists_of_urlAmong? hNames hUsers
  obtain ⟨n, q, hn, hq, hUrl'⟩ := exists_of_urlAmong? hNames hAll
  exact ⟨_, names, listUsers, listAllUsers, m, n, p, q, hSpecification, hNames, rfl, rfl, hm, hn, hp, hq,
    by decide +kernel, by rw [hUrl, hUrl']⟩

end ClientGen.Unit
