import ClientGen.Unit.Request
import Mathlib.Data.List.Basic

/-!
# Documentation strings read back

Texts of a document are written into documentation strings, which stand in three double quotes. Such
a literal goes over lines and ends with the first three quotes in a row that no backslash escapes, so
a text with quotes in it, or with a backslash at its end, could end it early or keep it open. This
module reads a literal as the language of the generated code does (`readLong?`): first the source,
where all line ends are the same, then the literal up to its end, then its escapes. It shows that
the literal ends behind the text that was written into it and that its value is this text.

Of the escapes, those with the code or the name of a character are refused.

Main results:

* `scanLong_docChars` — an escaped text does not end its literal.
* `decodeLong_docChars` — and its value is the text.
* `unlines_headLines` — the documentation of a request is one literal, though it has two parts.
* `readLong?_docText` — documentation strings hold what was written into them.
-/

namespace ClientGen.Unit

open ClientGen.Text

-- ---------------------------------------------------------------------------
-- Reading long literals
-- ---------------------------------------------------------------------------

/-- The source with a line feed at each end of a line. -/
def unifyEnds : List Char → List Char
  | [] => []
  | c :: rest =>
    if c == '\r' then if rest.head? == some '\n' then unifyEnds rest else '\n' :: unifyEnds rest
    else c :: unifyEnds rest

/-- The quotes around a long literal. -/
def longQuotes : List Char := [doubleQuote, doubleQuote, doubleQuote]

/-- What stands in a literal up to its closing quotes, and what comes behind these. A character behind
a backslash, which is `escaped`, never counts as a quote. -/
def scanLong : (escaped : Bool) → List Char → Option (List Char × List Char)
  | _, [] => none
  | true, c :: rest => (scanLong false rest).map fun (inside, after) => (c :: inside, after)
  | false, c :: rest =>
    if longQuotes.isPrefixOf (c :: rest) then some ([], rest.drop 2)
    else (scanLong (c == backslash) rest).map fun (inside, after) => (c :: inside, after)

/-- The escapes that stand for certain characters. An escaped line feed stands for nothing. -/
def escapes : List (Char × List Char) := [
  ('\n', []), (backslash, [backslash]), (singleQuote, [singleQuote]), (doubleQuote, [doubleQuote]),
  ('a', ['\x07']), ('b', ['\x08']), ('f', ['\x0c']), ('n', ['\n']), ('r', ['\r']), ('t', ['\t']),
  ('v', ['\x0b'])]

/-- The characters that announce a code or a name. -/
def announcers : List Char := ['0', '1', '2', '3', '4', '5', '6', '7', 'x', 'u', 'U', 'N']

/-- What a character stands for behind a backslash: before any other one the backslash is kept. -/
def escapeValue? (c : Char) : Option (List Char) :=
  match escapes.lookup c with
  | some value => some value
  | none => if announcers.contains c then none else some [backslash, c]

/-- The value of what stands in a literal. -/
def decodeLong : (escaped : Bool) → List Char → Option (List Char)
  | false, [] => some []
  | true, [] => none
  | true, c :: rest => (escapeValue? c).bind fun value => (decodeLong false rest).map (value ++ ·)
  | false, c :: rest =>
    if c == backslash then decodeLong true rest else (decodeLong false rest).map (c :: ·)

/-- The value of the long literal that a source starts with, and the source behind it. A source never
holds the null character. -/
def readLong? (source : String) : Option (String × String) :=
  let chars := unifyEnds source.toList
  if chars.contains '\x00' || !longQuotes.isPrefixOf chars then none
  else do
    let (inside, after) ← scanLong false (chars.drop 3)
    let value ← decodeLong false inside
    return (.ofList value, .ofList after)

-- ---------------------------------------------------------------------------
-- Escaped texts
-- ---------------------------------------------------------------------------

/-- The text has neither carriage returns nor null characters, which no source keeps as they are. -/
def Kept (text : String) : Prop := '\r' ∉ text.toList ∧ '\x00' ∉ text.toList

instance (text : String) : Decidable (Kept text) := inferInstanceAs (Decidable (_ ∧ _))

theorem Kept.append {s t : String} (hs : Kept s) (ht : Kept t) : Kept (s ++ t) := by
  unfold Kept at *
  simp only [String.toList_append, List.mem_append, not_or]
  exact ⟨⟨hs.1, ht.1⟩, hs.2, ht.2⟩

theorem unifyEnds_eq_self {cs : List Char} (h : '\r' ∉ cs) : unifyEnds cs = cs := by
  induction cs with
  | nil => rfl
  | cons c cs ih =>
    rw [List.mem_cons, not_or] at h
    have hOther : ¬ (c == '\r') = true := fun hSame => h.1 (beq_iff_eq.mp hSame).symm
    rw [unifyEnds, if_neg hOther, ih h.2]

/-- A character is written as it is, or behind a backslash. -/
theorem docChar_cases (c : Char) :
    (docChar c = [backslash, c] ∧ (c = backslash ∨ c = doubleQuote)) ∨
      (docChar c = [c] ∧ (c == backslash) = false ∧ (c == doubleQuote) = false) := by
  unfold docChar
  by_cases h : (c == backslash || c == doubleQuote) = true
  · rw [if_pos h]
    exact Or.inl ⟨rfl, by simpa using h⟩
  · rw [if_neg h]
    exact Or.inr ⟨rfl, Bool.or_eq_false_iff.mp (Bool.not_eq_true _ ▸ h)⟩

theorem docText_append (s t : String) : docText (s ++ t) = docText s ++ docText t := by
  rw [docText, String.toList_append, List.flatMap_append, String.ofList_append]
  rfl

theorem Kept.docText {text : String} (h : Kept text) : Kept (docText text) := by
  have hChar : ∀ c ∈ (Text.docText text).toList, c = backslash ∨ c ∈ text.toList := by
    intro c hc
    rw [Text.docText, String.toList_ofList, List.mem_flatMap] at hc
    obtain ⟨d, hd, hc⟩ := hc
    rcases docChar_cases d with ⟨hDoc, -⟩ | ⟨hDoc, -⟩
    · rw [hDoc, List.mem_pair] at hc
      rcases hc with rfl | rfl
      · exact Or.inl rfl
      · exact Or.inr hd
    · rw [hDoc, List.mem_singleton] at hc
      exact Or.inr (hc ▸ hd)
  refine ⟨fun hc => ?_, fun hc => ?_⟩
  · exact (hChar _ hc).elim (by decide) h.1
  · exact (hChar _ hc).elim (by decide) h.2

/-- **An escaped text does not end its literal,** which goes on up to the closing quotes. -/
theorem scanLong_docChars (cs rest : List Char) :
    scanLong false (cs.flatMap docChar ++ (longQuotes ++ rest)) = some (cs.flatMap docChar, rest) := by
  have hOpen : ∀ c tail, (c == doubleQuote) = false → ¬ longQuotes.isPrefixOf (c :: tail) = true := by
    intro c tail hOther
    rw [longQuotes, List.isPrefixOf, BEq.comm, hOther, Bool.false_and]
    exact Bool.false_ne_true
  induction cs with
  | nil => rfl
  | cons c cs ih =>
    rw [List.flatMap_cons, List.append_assoc]
    rcases docChar_cases c with ⟨hDoc, -⟩ | ⟨hDoc, hPlain, hNoQuote⟩
    · rw [hDoc, List.cons_append, List.singleton_append, scanLong, if_neg (hOpen _ _ rfl),
        show (backslash == backslash) = true from rfl, scanLong, ih]
      rfl
    · rw [hDoc, List.singleton_append, scanLong, if_neg (hOpen _ _ hNoQuote), hPlain, ih]
      rfl

/-- **Its value is the text.** -/
theorem decodeLong_docChars (cs : List Char) : decodeLong false (cs.flatMap docChar) = some cs := by
  induction cs with
  | nil => rfl
  | cons c cs ih =>
    rw [List.flatMap_cons]
    rcases docChar_cases c with ⟨hDoc, hMark⟩ | ⟨hDoc, hPlain, -⟩
    · have hValue : escapeValue? c = some [c] := by rcases hMark with rfl | rfl <;> rfl
      rw [hDoc, List.cons_append, List.singleton_append, decodeLong, if_pos (BEq.rfl), decodeLong, hValue,
        Option.bind_some, ih]
      rfl
    · rw [hDoc, List.singleton_append, decodeLong, hPlain, if_neg Bool.false_ne_true, ih]
      rfl

/-- A source without such characters that starts with three quotes is read from there. -/
theorem readLong?_of_toList {source : String} {rest : List Char} (hKept : Kept source)
    (h : source.toList = longQuotes ++ rest) :
    readLong? source = (scanLong false rest).bind fun (inside, after) =>
      (decodeLong false inside).map fun value => (.ofList value, .ofList after) := by
  obtain ⟨hReturn, hNull⟩ := hKept
  rw [h] at hReturn hNull
  have hFine : ((longQuotes ++ rest).contains '\x00' ||
      !longQuotes.isPrefixOf (longQuotes ++ rest)) = false := by
    rw [Bool.or_eq_false_iff]
    exact ⟨by simpa using hNull, rfl⟩
  have hInside : (longQuotes ++ rest).drop 3 = rest := rfl
  unfold readLong?
  rw [h, unifyEnds_eq_self hReturn]
  dsimp only
  rw [hFine, if_neg Bool.false_ne_true, hInside]
  cases scanLong false rest with
  | none => rfl
  | some parts =>
    show (decodeLong false parts.1).bind _ = (decodeLong false parts.1).map _
    cases decodeLong false parts.1 with
    | none => rfl
    | some _ => rfl

/-- A documentation string is read back, and what stands behind it is left. -/
theorem readLong?_docQuoted {text after : String} (hText : Kept text) (hAfter : Kept after) :
    readLong? (docQuoted (docText text) ++ after) = some (text, after) := by
  have hSource : (docQuoted (docText text) ++ after).toList =
      longQuotes ++ (text.toList.flatMap docChar ++ (longQuotes ++ after.toList)) := by
    rw [docQuoted, docText]
    simp [longQuotes, doubleQuote]
  have hQuotes : Kept "\x22\x22\x22" := by decide
  have hKept : Kept (docQuoted (docText text) ++ after) :=
    ((hQuotes.append hText.docText).append hQuotes).append hAfter
  rw [readLong?_of_toList hKept hSource, scanLong_docChars, Option.bind_some]
  dsimp only
  rw [decodeLong_docChars, Option.map_some, String.ofList_toList, String.ofList_toList]

-- ---------------------------------------------------------------------------
-- The documentation of requests
-- ---------------------------------------------------------------------------

/-- What the documentation at the top of a request unit says: the name of the endpoint and, behind an
empty line, its description. -/
def headText (r : Request) : String :=
  r.endpointName ++ "\n" ++
    match r.description with
    | some description => if description = "" then "" else "\n" ++ wrap 76 description ++ "\n"
    | none => ""

theorem docText_lineFeed : docText "\n" = "\n" := by decide +kernel

/-- The two parts make up one documentation string. -/
theorem unlines_headLines (r : Request) : unlines r.headLines = docQuoted (docText (headText r)) ++ "\n" := by
  have hShort : unlines ["\x22\x22\x22" ++ docText r.endpointName, "\x22\x22\x22"] =
      docQuoted (docText (r.endpointName ++ "\n")) ++ "\n" := by
    simp [unlines, docQuoted, docText_append, docText_lineFeed, String.append_assoc]
  unfold Request.headLines headText
  cases r.description with
  | none => simpa using hShort
  | some description =>
    by_cases hEmpty : description = ""
    · simpa [hEmpty] using hShort
    · simp [hEmpty, unlines, docQuoted, docText_append, docText_lineFeed, String.append_assoc]

/--
**Documentation strings hold what is written into them.** Whatever a text without carriage returns and
null characters holds, the literal that starts at the first of the three quotes before the escaped
text ends with the three quotes behind it, whatever follows, and its value is the text. Texts may be
escaped part by part, and so the documentation of a request holds its two parts.
-/
theorem readLong?_docText :
    (∀ text after : String, Kept text → Kept after →
      readLong? ("\x22\x22\x22" ++ docText text ++ "\x22\x22\x22" ++ after) = some (text, after)) ∧
    (∀ s t, docText (s ++ t) = docText s ++ docText t) ∧
    ∀ (r : Request) (after : String), Kept (headText r) → Kept after →
      readLong? (unlines r.headLines ++ after) = some (headText r, "\n" ++ after) := by
  refine ⟨fun _ _ hText hAfter => readLong?_docQuoted hText hAfter, docText_append, ?_⟩
  intro r after hText hAfter
  have hLineFeed : Kept "\n" := by decide
  rw [unlines_headLines, String.append_assoc, readLong?_docQuoted hText (hLineFeed.append hAfter)]

/-- A text that would end its literal early, go on as code and open a literal again. -/
def intruder : String := "\x22\x22\x22\nimport os\n\\\x22\x22\x22"

/-- A request whose name ends with a backslash and whose description is that text. -/
def intruded : Request where
  endpointName := "read\\"
  description := some intruder
  className := "ReadRequest"
  method := .get
  bodyFormat := none
  arguments := []
  urlFormat := "/"
  builders := []
  imports := []
  decoder := none

/-- Both are documented as they are. -/
theorem readLong?_intruder :
    Kept intruder ∧ Kept (headText intruded) ∧
      readLong? ("\x22\x22\x22" ++ docText intruder ++ "\x22\x22\x22" ++ "\n\nclass Pet:\n") =
        some (intruder, "\n\nclass Pet:\n") ∧
      readLong? (unlines intruded.headLines ++ "\nimport httpx\n") =
        some (headText intruded, "\n\nimport httpx\n") := by
  obtain ⟨hTexts, -, hRequests⟩ := readLong?_docText
  have hText : Kept intruder := by decide
  have hHead : Kept (headText intruded) := by decide +kernel
  exact ⟨hText, hHead, hTexts _ _ hText (by decide), hRequests _ _ hHead (by decide)⟩

end ClientGen.Unit
