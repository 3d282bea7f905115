import ClientGen.Proofs.Naming.Identifiers
import ClientGen.Proofs.Path.Filling
import ClientGen.Proofs.Unit.Url
import ClientGen.Proofs.Unit.Wiring

/-!
# What the URL of a request evaluates to

The body of a formatted string mixes text with fields: backslashes and quotes of the
text are escaped, its braces are doubled, and a field is an expression in single
braces. This module reads such a body as the language of the generated code does
(`evaluate`), and shows that the URL that is emitted for an endpoint is well formed and
evaluates to the path, with the value of the right attribute in each placeholder.

Of the language no more is read than is emitted: the escapes of the backslash and of
the quote, and fields that are an attribute of `self`. Everything else is refused.

Main results:

* `evaluate_formatText` — escaped text evaluates to the text.
* `evaluate_field` — a field evaluates to the value of its attribute.
* `evaluate_url` — the URL of an endpoint evaluates to its path.
-/

namespace ClientGen.Unit

open ClientGen.Api ClientGen.Document ClientGen.Naming ClientGen.Path ClientGen.Text

-- ---------------------------------------------------------------------------
-- Evaluating formatted strings
-- ---------------------------------------------------------------------------

/-- Where the reader of a formatted string is. -/
inductive Reading where
  | text
  /-- behind a backslash -/
  | escape
  /-- behind an opening brace, which the next character doubles or which opens a field -/
  | opening
  /-- behind a closing brace outside of fields, which has to be doubled -/
  | closing
  /-- inside a field, behind these characters of its expression, last one first -/
  | field (expression : List Char)

/-- Does the character break off a string that is written on one line? -/
def breaksOff (c : Char) : Bool := c == '\n' || c == '\r' || c == '\x00'

/-- The attribute that an expression reads, if it reads one and does nothing else. -/
def attributeRead? (expression : List Char) : Option String :=
  if "self.".toList.isPrefixOf expression ∧ IsName (.ofList (expression.drop 5)) then
    some (.ofList (expression.drop 5))
  else none

/-- Evaluate the rest of a formatted string that stands between double quotes. -/
def evaluateFrom (valueOf : String → Option String) : Reading → List Char → Option (List Char)
  | .text, [] => some []
  | _, [] => none
  | .text, c :: rest =>
    if c == backslash then evaluateFrom valueOf .escape rest
    else if c == openBrace then evaluateFrom valueOf .opening rest
    else if c == closeBrace then evaluateFrom valueOf .closing rest
    else if c == doubleQuote || breaksOff c then none
    else (evaluateFrom valueOf .text rest).map (c :: ·)
  | .escape, c :: rest =>
    if c == backslash || c == doubleQuote then (evaluateFrom valueOf .text rest).map (c :: ·)
    else none
  | .opening, c :: rest =>
    if c == openBrace then (evaluateFrom valueOf .text rest).map (c :: ·)
    else if c == closeBrace then none
    else evaluateFrom valueOf (.field [c]) rest
  | .closing, c :: rest =>
    if c == closeBrace then (evaluateFrom valueOf .text rest).map (c :: ·) else none
  | .field expression, c :: rest =>
    if c == closeBrace then do
      let value ← (attributeRead? expression.reverse).bind valueOf
      (evaluateFrom valueOf .text rest).map (value.toList ++ ·)
    else evaluateFrom valueOf (.field (c :: expression)) rest

/-- The text that the body of a formatted string evaluates to, where the attributes have the given
texts. -/
def evaluate (valueOf : String → Option String) (body : String) : Option String :=
  (evaluateFrom valueOf .text body.toList).map String.ofList

variable {valueOf : String → Option String}

/-- Escaped text evaluates to the text. -/
theorem evaluate_formatChar {c : Char} (h : breaksOff c = false) (rest : List Char) :
    evaluateFrom valueOf .text (formatChar c ++ rest) =
      (evaluateFrom valueOf .text rest).map (c :: ·) := by
  rcases formatChar_cases c with ⟨hFormat, rfl | rfl⟩ | ⟨hFormat, rfl | rfl⟩ |
    ⟨hFormat, ⟨hEscape, hQuote⟩, hOpen, hClose⟩
  · rw [hFormat]
    rfl
  · rw [hFormat]
    rfl
  · rw [hFormat]
    rfl
  · rw [hFormat]
    rfl
  · simp [hFormat, evaluateFrom, hEscape, hOpen, hClose, hQuote, h]

theorem evaluate_slash (rest : List Char) :
    evaluateFrom valueOf .text ('/' :: rest) = (evaluateFrom valueOf .text rest).map ('/' :: ·) :=
  evaluate_formatChar (c := '/') rfl rest

theorem evaluate_formatText {cs : List Char} (h : ∀ c ∈ cs, breaksOff c = false) (rest : List Char) :
    evaluateFrom valueOf .text (formatText cs ++ rest) =
      (evaluateFrom valueOf .text rest).map (cs ++ ·) := by
  induction cs with
  | nil => simp [formatText]
  | cons c cs ih =>
    obtain ⟨hHead, hTail⟩ := List.forall_mem_cons.mp h
    have hRest : evaluateFrom valueOf .text (cs.flatMap formatChar ++ rest) =
        (evaluateFrom valueOf .text rest).map (cs ++ ·) := ih hTail
    rw [formatText, List.flatMap_cons, List.append_assoc, evaluate_formatChar hHead, hRest,
      Option.map_map]
    rfl

/-- The expression of a field goes up to its closing brace. -/
theorem evaluate_expression {expression : List Char} (h : closeBrace ∉ expression)
    (before rest : List Char) :
    evaluateFrom valueOf (.field before) (expression ++ closeBrace :: rest) =
      ((attributeRead? (before.reverse ++ expression)).bind valueOf).bind fun value =>
        (evaluateFrom valueOf .text rest).map (value.toList ++ ·) := by
  induction expression generalizing before with
  | nil => simp [evaluateFrom]
  | cons c expression ih =>
    have hOther : (c == closeBrace) = false := by
      rw [beq_eq_false_iff_ne]
      rintro rfl
      exact h List.mem_cons_self
    rw [List.cons_append, evaluateFrom, hOther, if_neg Bool.false_ne_true,
      ih fun hMem => h (List.mem_cons_of_mem _ hMem)]
    simp

/-- A field evaluates to the value of the attribute that it reads. -/
theorem evaluate_field {argument value : String} (hName : IsName argument)
    (hValue : valueOf argument = some value) (rest : List Char) :
    evaluateFrom valueOf .text (("\x7bself." ++ argument ++ "\x7d").toList ++ rest) =
      (evaluateFrom valueOf .text rest).map (value.toList ++ ·) := by
  have hField : ("\x7bself." ++ argument ++ "\x7d").toList ++ rest =
      openBrace :: 's' :: (("elf.".toList ++ argument.toList) ++ closeBrace :: rest) := by
    rw [String.toList_append, String.toList_append]
    simp [openBrace, closeBrace]
  have hExpression : closeBrace ∉ "elf.".toList ++ argument.toList := by
    rw [List.mem_append, not_or]
    exact ⟨by decide, fun hMem => absurd (hName.chars _ hMem) (by decide)⟩
  have hOpens : evaluateFrom valueOf .text (openBrace :: 's' ::
        (("elf.".toList ++ argument.toList) ++ closeBrace :: rest)) =
      evaluateFrom valueOf (.field ['s'])
        (("elf.".toList ++ argument.toList) ++ closeBrace :: rest) := rfl
  have hRead : attributeRead? ("self.".toList ++ argument.toList) = some argument := by
    have hDrop : ("self.".toList ++ argument.toList).drop 5 = argument.toList := rfl
    have hPrefix : "self.".toList.isPrefixOf ("self.".toList ++ argument.toList) = true := rfl
    unfold attributeRead?
    rw [hDrop, String.ofList_toList, if_pos ⟨hPrefix, hName⟩]
  rw [hField, hOpens, evaluate_expression hExpression]
  have hWhole : ['s'].reverse ++ ("elf.".toList ++ argument.toList) =
      "self.".toList ++ argument.toList := rfl
  rw [hWhole, hRead, Option.bind_some, hValue]
  rfl

-- ---------------------------------------------------------------------------
-- The URL of an endpoint
-- ---------------------------------------------------------------------------

/-- The attributes of a request whose arguments have the given texts. -/
def attributesOf (arguments : Arguments) (value : String → String) (name : String) : Option String :=
  if name ∈ arguments.values then some (value name) else none

/-- The value that a path parameter has: the text of its own attribute. -/
def PathValue (arguments : Arguments) (value : String → String) (key text : String) : Prop :=
  ∃ argument, arguments.get? (.path, key) = some argument ∧ text = value argument

section Evaluated

variable {resolved : ResolvedName} (value : String → String)
  (hNamed : ∀ argument ∈ resolved.arguments.values, IsName argument)
include hNamed

/-- A piece evaluates to its text or to the value of its placeholder. -/
theorem evaluate_piece {p : Piece} {text : String} (h : pieceText resolved p = .ok text)
    (hLine : ∀ c ∈ p.source, breaksOff c = false) :
    ∃ out, p.Fills (PathValue resolved.arguments value) out ∧
      ∀ rest, evaluateFrom (attributesOf resolved.arguments value) .text (text.toList ++ rest) =
        (evaluateFrom (attributesOf resolved.arguments value) .text rest).map (out ++ ·) := by
  cases p with
  | text cs =>
    cases h
    refine ⟨cs, rfl, fun rest => ?_⟩
    rw [String.toList_ofList]
    exact evaluate_formatText hLine rest
  | placeholder name =>
    simp only [pieceText] at h
    split at h
    · rename_i argument hArgument
      cases h
      obtain ⟨entry, hEntry, -, rfl⟩ := Dictionary.exists_of_get? hArgument
      have hMem := List.mem_map_of_mem (f := Prod.snd) hEntry
      exact ⟨_, ⟨_, ⟨_, hArgument, rfl⟩, rfl⟩, evaluate_field (hNamed _ hMem) (if_pos hMem)⟩
    · cases h

/-- So the pieces of a segment evaluate to the filled segment. -/
theorem evaluate_pieces {ps : List Piece} {texts : List String}
    (h : ps.mapM (pieceText resolved) = .ok texts)
    (hLine : ∀ c ∈ ps.flatMap Piece.source, breaksOff c = false) :
    ∃ outs, List.Forall₂ (Piece.Fills (PathValue resolved.arguments value)) ps outs ∧
      ∀ rest, evaluateFrom (attributesOf resolved.arguments value) .text
          ((String.join texts).toList ++ rest) =
        (evaluateFrom (attributesOf resolved.arguments value) .text rest).map (outs.flatten ++ ·) := by
  rw [String.toList_join]
  induction ps generalizing texts with
  | nil =>
    cases h
    exact ⟨[], .nil, fun rest => by simp⟩
  | cons p ps ih =>
    rw [List.mapM_cons] at h
    obtain ⟨text, hText, h⟩ := exists_of_bind_ok h
    obtain ⟨texts, hTexts, h⟩ := exists_of_bind_ok h
    cases h
    rw [List.flatMap_cons] at hLine
    obtain ⟨out, hOut, hFirst⟩ := evaluate_piece value hNamed hText fun c hc =>
      hLine c (List.mem_append_left _ hc)
    obtain ⟨outs, hOuts, hRest⟩ := ih hTexts fun c hc => hLine c (List.mem_append_right _ hc)
    refine ⟨out :: outs, .cons hOut hOuts, fun rest => ?_⟩
    rw [List.flatMap_cons, List.append_assoc, hFirst, hRest, Option.map_map, List.flatten_cons]
    simp [Function.comp_def]

/-- **Segments.** The segments of a path evaluate to the filled segments. -/
theorem evaluate_segments {segments texts : List String}
    (h : (segments.mapM fun segment => do
      return String.join (← (Path.pieces segment.toList).mapM (pieceText resolved))) = .ok texts)
    (hLine : ∀ segment ∈ segments, ∀ c ∈ segment.toList, breaksOff c = false) :
    ∃ outs : List String,
      List.Forall₂ (fun segment out => Filled (PathValue resolved.arguments value) segment.toList
        out.toList) segments outs ∧
      evaluateFrom (attributesOf resolved.arguments value) .text
          (['/'].intercalate (texts.map String.toList)) =
        some (['/'].intercalate (outs.map String.toList)) := by
  induction segments generalizing texts with
  | nil =>
    cases h
    exact ⟨[], .nil, rfl⟩
  | cons segment segments ih =>
    rw [List.mapM_cons] at h
    obtain ⟨text, hText, h⟩ := exists_of_bind_ok h
    obtain ⟨pieces, hPieces, hText⟩ := exists_of_bind_ok hText
    obtain ⟨rest, hRest, h⟩ := exists_of_bind_ok h
    cases hText
    cases h
    obtain ⟨hHead, hTail⟩ := List.forall_mem_cons.mp hLine
    rw [← pieces_source segment.toList] at hHead
    obtain ⟨outs, hOuts, hFirst⟩ := evaluate_pieces value hNamed hPieces hHead
    obtain ⟨more, hMore, hValue⟩ := ih hRest hTail
    refine ⟨.ofList outs.flatten :: more, .cons ?_ hMore, ?_⟩
    · rw [String.toList_ofList]
      exact filled_of_pieces hOuts
    · cases segments with
      | nil =>
        cases hRest
        cases hMore
        have hAlone := hFirst []
        simpa [evaluateFrom] using hAlone
      | cons next segments =>
        rw [List.mapM_cons] at hRest
        obtain ⟨nextText, -, hRest⟩ := exists_of_bind_ok hRest
        obtain ⟨rest, -, hRest⟩ := exists_of_bind_ok hRest
        cases hRest
        obtain ⟨_, _⟩ | ⟨_, _⟩ := hMore
        simp only [List.map_cons] at hValue ⊢
        rw [List.intercalate_cons_cons, List.intercalate_cons_cons, List.append_assoc, hFirst,
          List.singleton_append, evaluate_slash, hValue]
        simp

/-- The body that is emitted for an endpoint evaluates to its filled segments. -/
theorem evaluate_urlFormat {e : Endpoint} {url : String}
    (hLine : ∀ segment ∈ e.segments, ∀ c ∈ segment.toList, breaksOff c = false)
    (h : urlFormat e resolved = .ok url) :
    ∃ texts : List String,
      List.Forall₂ (fun segment text => Filled (PathValue resolved.arguments value) segment.toList
        text.toList) e.segments texts ∧
      evaluate (attributesOf resolved.arguments value) url = some ("/" ++ "/".intercalate texts) := by
  obtain ⟨pieces, hPieces, h⟩ := exists_of_bind_ok h
  cases h
  obtain ⟨texts, hFilled, hValue⟩ := evaluate_segments value hNamed hPieces hLine
  have hSlash : evaluateFrom (attributesOf resolved.arguments value) .text
      ('/' :: ['/'].intercalate (pieces.map String.toList)) =
        some ('/' :: ['/'].intercalate (texts.map String.toList)) := by
    rw [evaluate_slash, hValue]
    rfl
  have hBody : ∀ parts : List String, ("/" ++ "/".intercalate parts).toList =
      '/' :: ['/'].intercalate (parts.map String.toList) := by
    intro parts
    rw [String.toList_append, String.toList_intercalate]
    rfl
  refine ⟨texts, hFilled, ?_⟩
  rw [evaluate, hBody, hSlash, ← hBody, Option.map_some, String.ofList_toList]

end Evaluated

theorem mem_intercalate {segments : List (List Char)} {segment : List Char} {c : Char}
    (h : segment ∈ segments) (hc : c ∈ segment) : c ∈ ['/'].intercalate segments := by
  induction segments with
  | nil => cases h
  | cons first rest ih =>
    cases rest with
    | nil =>
      rw [List.mem_singleton] at h
      simpa [h] using hc
    | cons next rest =>
      rw [List.intercalate_cons_cons]
      rcases List.mem_cons.mp h with rfl | h
      · exact List.mem_append_left _ (List.mem_append_left _ hc)
      · exact List.mem_append_right _ (ih h)

/--
**The URL evaluates to the path.** For all settings and every endpoint that is made of an operation,
with the names that are resolved for it among others: if its path keeps to one line and can be
rebuilt, then the body that is emitted is well formed and evaluates, whatever texts the arguments
have, to a slash and the segments of the path with slashes between them. In the segments each
placeholder has given way to the text of the argument of its path parameter, and all else is as it
was. If no other endpoint has the same method and path, then it is just the path parameters of the
endpoint that have such arguments.
-/
theorem evaluate_url {settings : Settings} {endpoints : List Endpoint} {r : Resolution} {e : Endpoint}
    {resolved : ResolvedName} {url : String} (hMade : OfOperation e)
    (hNames : (resolve settings endpoints).outcome = .ok r) (he : e ∈ endpoints)
    (hResolved : r.names.get? e.key = some resolved)
    (hLine : ∀ c ∈ e.path.toList, breaksOff c = false) (hUrl : urlFormat e resolved = .ok url) :
    (∀ value : String → String, ∃ texts : List String,
      List.Forall₂ (fun segment text => Filled (PathValue resolved.arguments value) segment.toList
        text.toList) e.segments texts ∧
      evaluate (attributesOf resolved.arguments value) url = some ("/" ++ "/".intercalate texts)) ∧
    ((endpoints.map Endpoint.key).Nodup → ∀ key,
      (∃ argument, resolved.arguments.get? (.path, key) = some argument) ↔
        ∃ p ∈ e.pathParameters, p.name = .str key) := by
  obtain ⟨_, _, _, _, _, hKeyed, hOperation⟩ := hMade
  constructor
  · intro value
    obtain ⟨entry, hEntry, -, rfl⟩ := Dictionary.exists_of_get? hResolved
    have hNamed := resolve_values isName_freshArgument hNames _ (List.mem_map_of_mem hEntry)
    have hSegments : ∀ segment ∈ e.segments, ∀ c ∈ segment.toList, breaksOff c = false := by
      intro segment hSegment c hc
      have hPath := mem_intercalate (List.mem_map_of_mem (f := String.toList) hSegment) hc
      rw [ofOperation_segments hOperation, stripSlashes, String.toList_ofList] at hPath
      exact hLine c (mem_trim hPath)
    exact evaluate_urlFormat value hNamed hSegments hUrl
  · intro hKeys key
    obtain ⟨before, after, rfl⟩ := List.append_of_mem he
    obtain ⟨arguments, hArguments, hFound⟩ := (resolve_tracks hKeys hNames).names before e
      ⟨after, by rw [List.append_assoc, List.singleton_append]⟩
    obtain ⟨used, hChosen⟩ := argumentsOf_chosen (ofOperation_normal hKeyed hOperation).2.2 hArguments
    have hOwn : resolved.arguments = arguments := by
      rw [← Option.some.inj (hFound.symm.trans hResolved)]
      rfl
    rw [hOwn]
    constructor
    · rintro ⟨argument, hArgument⟩
      obtain ⟨p, hp, hName⟩ := hChosen.exists_parameter hArgument
      exact ⟨p, mem_passed_path.mp hp, hName⟩
    · rintro ⟨p, hp, hName⟩
      obtain ⟨key', argument, hKey, hArgument⟩ :=
        hChosen.exists_get? (mem_passed_path.mpr hp : (Slot.path, p) ∈ passed settings e)
      cases hName.symm.trans hKey
      exact ⟨argument, hArgument⟩

/-- An endpoint whose path has quotes, backslashes and braces that open no placeholder. -/
def findEndpoint : Endpoint where
  name := "find"
  method := .get
  path := "/q\x22\x7buser-id\x7d\x5c/\x7dx\x7by/\x7bid\x7d\x7b"
  segments := ["q\x22\x7buser-id\x7d\x5c", "\x7dx\x7by", "\x7bid\x7d\x7b"]
  collection := "Q\x22\x7buser-id\x7d\x5c"
  pathParameters := ["user-id", "id"].map fun name => { kind := .text, nullable := false, name := .str name }

theorem ofOperation_find :
    (Endpoint.ofOperation {} "get" (.str findEndpoint.path) (.map [(.str "operationId", .str "find")])
      (.list [])).outcome = .ok findEndpoint := by
  cbv

/-- The body that is emitted for it, and the text that this evaluates to where the arguments are called
after themselves. -/
def findUrl? : Option (String × Option String) := do
  let r ← (resolve {} [findEndpoint]).outcome.toOption
  let resolved ← r.names.get? findEndpoint.key
  let url ← (urlFormat findEndpoint resolved).toOption
  return (url, evaluate (attributesOf resolved.arguments id) url)

/-- All of its text is found again. -/
theorem evaluate_findUrl :
    ∃ r resolved url texts, (resolve {} [findEndpoint]).outcome = .ok r ∧
      r.names.get? findEndpoint.key = some resolved ∧ urlFormat findEndpoint resolved = .ok url ∧
      url = "/q\x5c\x22\x7bself.user_id\x7d\x5c\x5c/\x7d\x7dx\x7b\x7by/\x7bself.id\x7d\x7b\x7b" ∧
      evaluate (attributesOf resolved.arguments id) url = some ("/" ++ "/".intercalate texts) ∧
      "/" ++ "/".intercalate texts = "/q\x22user_id\x5c/\x7dx\x7by/id\x7b" := by
  have hRun : findUrl? =
      some ("/q\x5c\x22\x7bself.user_id\x7d\x5c\x5c/\x7d\x7dx\x7b\x7by/\x7bself.id\x7d\x7b\x7b",
        some "/q\x22user_id\x5c/\x7dx\x7by/id\x7b") := by decide +kernel
  unfold findUrl? at hRun
  obtain ⟨r, hNames, h⟩ := Option.bind_eq_some_iff.mp hRun
  obtain ⟨resolved, hResolved, h⟩ := Option.bind_eq_some_iff.mp h
  obtain ⟨url, hUrl, h⟩ := Option.bind_eq_some_iff.mp h
  obtain ⟨hText, hEvaluated⟩ := Prod.mk.inj (Option.some.inj h)
  have hMade : OfOperation findEndpoint := ⟨{}, _, _, _, _, by decide +kernel, ofOperation_find⟩
  have hLine : findEndpoint.path.toList.all (! breaksOff ·) = true := by decide +kernel
  obtain ⟨texts, -, hValue⟩ := (evaluate_url hMade (ok_of_toOption hNames) List.mem_cons_self hResolved
    (by simpa using hLine) (ok_of_toOption hUrl)).1 id
  exact ⟨r, resolved, url, texts, ok_of_toOption hNames, hResolved, ok_of_toOption hUrl, hText, hValue,
    Option.some.inj (hValue.symm.trans hEvaluated)⟩

end ClientGen.Unit
