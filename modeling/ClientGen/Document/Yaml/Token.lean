import ClientGen.Document.Utf8
import ClientGen.Document.Yaml.Scalar

/-!
# YAML tokens

A YAML text as a sequence of tokens. Indentation shows as tokens that start and end block collections.
A key is recognised only by the colon after it, so the scanner remembers where a key may have started
and inserts the tokens for it there once the colon comes. Such a key lies on one line and is at most
1024 characters long.
-/

namespace ClientGen.Document.Yaml

/-- A directive before a document. -/
inductive Directive where
  | version (major : Nat)
  | tag (handle base : String)
  | other
  deriving DecidableEq, Repr

/-- A token. -/
inductive Token where
  | directive (d : Directive)
  | documentStart
  | documentEnd
  | sequenceStart
  | mappingStart
  | blockEnd
  | openBracket
  | closeBracket
  | openBrace
  | closeBrace
  | entry
  | comma
  | key
  | value
  | aliasOf (name : String)
  | anchor (name : String)
  | tag (handle : Option String) (suffix : String)
  | scalar (text : String) (plain : Bool)
  deriving DecidableEq, Repr

/-- A place where a key may have started: the number of tokens before it, and whether it has to be one. -/
structure PossibleKey where
  count : Nat
  required : Bool
  index : Nat
  line : Nat
  column : Nat

/-- The state of the scanner. The tokens are held last first. -/
structure Scanner where
  cursor : Cursor
  tokens : List Token := []
  count : Nat := 0
  flow : Nat := 0
  indent : Int := -1
  indents : List Int := []
  keyAllowed : Bool := true
  keys : List (Nat × PossibleKey) := []

namespace Scanner

/-- Add a token. -/
def push (s : Scanner) (t : Token) : Scanner := { s with tokens := t :: s.tokens, count := s.count + 1 }

/-- Add a token after the first `place` ones. -/
def insertAt (s : Scanner) (place : Nat) (t : Token) : Scanner :=
  let (after, before) := s.tokens.splitAt (s.count - place)
  { s with tokens := after ++ t :: before, count := s.count + 1 }

/-- Move the cursor. -/
def moveTo (s : Scanner) (c : Cursor) : Scanner := { s with cursor := c }

/-- Allow or forbid a key at the next token. -/
def allow (s : Scanner) (allowed : Bool) : Scanner := { s with keyAllowed := allowed }

/-- Forget the possible key of the current level. A key that has to be one cannot be forgotten. -/
def dropKey (s : Scanner) : Except Failure Scanner :=
  match s.keys.lookup s.flow with
  | some k => if k.required then malformed else .ok { s with keys := s.keys.filter (·.1 != s.flow) }
  | none => .ok s

/-- Remember that a key may start here. -/
def saveKey (s : Scanner) : Except Failure Scanner := do
  if s.keyAllowed then
    let s ← s.dropKey
    let required := s.flow == 0 && s.indent == s.cursor.column
    let c := s.cursor
    return { s with keys := (s.flow, ⟨s.count, required, c.index, c.line, c.column⟩) :: s.keys }
  else return s

/-- Is the possible key out of reach? -/
def isStale (s : Scanner) (k : PossibleKey) : Bool :=
  k.line != s.cursor.line || s.cursor.index - k.index > 1024

/-- Forget the possible keys that are out of reach. -/
def dropStaleKeys (s : Scanner) : Except Failure Scanner :=
  if s.keys.any fun k => s.isStale k.2 && k.2.required then malformed
  else .ok { s with keys := s.keys.filter fun k => !s.isStale k.2 }

/-- End the block collections that are indented by more than `column`. -/
def unwind (s : Scanner) (column : Int) : Scanner :=
  if s.flow != 0 then s else go s.indents s
where
  /-- End one block collection for each indentation to return to, while it is needed. -/
  go : List Int → Scanner → Scanner
    | [], s => s
    | outer :: more, s =>
      if s.indent > column then go more { s.push .blockEnd with indent := outer, indents := more } else s

/-- Start a block collection at a column, unless one is open there. The token goes after the first
`place` ones. -/
def indentTo (s : Scanner) (column place : Nat) (t : Token) : Scanner :=
  if s.flow == 0 && s.indent < column then
    { s.insertAt place t with indent := column, indents := s.indent :: s.indents }
  else s

/-- Move to the next token over spaces, comments and line ends. -/
def toNext : (fuel : Nat) → Scanner → Scanner
  | 0, s => s
  | fuel + 1, s =>
    let c := s.cursor.skipSpaces.skipComment
    match c.lineEnd? with
    | some (_, after) =>
      let s := s.moveTo after
      -- A line end in a block lets the next line start with a key.
      toNext fuel (if s.flow == 0 then s.allow true else s)
    | none => s.moveTo c

/-! ## Directives, anchors and tags -/

/-- Read a number. -/
def readNumber (c : Cursor) : Except Failure (Nat × Cursor) :=
  match c.run Char.isDigit with
  | [] => malformed
  | digits => .ok (Json.digitsValue digits, c.skip digits.length)

/-- Read the version of a directive. -/
def readVersion (c : Cursor) : Except Failure (Directive × Cursor) := do
  let (major, c) ← readNumber c.skipSpaces
  if !c.sees '.' then malformed
  else
    let (_, c) ← readNumber c.next
    if spaceNext c.rest then return (.version major, c) else malformed

/-- Read the handle of a tag: an exclamation mark, or a name between two. -/
def readHandle (c : Cursor) : Except Failure (String × Cursor) :=
  if !c.sees '!' then malformed
  else if c.next.sees ' ' then .ok ("!", c.next)
  else
    let name := c.next.run isNameChar
    if (c.next.skip name.length).sees '!' then
      .ok (.ofList ('!' :: name ++ ['!']), c.skip (name.length + 2))
    else malformed

/-- A character of a tag. -/
def isTagChar (c : Char) : Bool :=
  c.isAlphanum || ['-', ';', '/', '?', ':', '@', '&', '=', '+', '$', ',', '_', '.', '!', '~', '*',
    '\x27', '(', ')', '[', ']', '%'].contains c

/-- The bytes of escapes at the front of a text. -/
def escapedBytes : List Char → Option (List UInt8)
  | '%' :: rest =>
    match rest with
    | a :: b :: more => do
      let byte := UInt8.ofNat ((← Json.hexDigit? a) * 16 + (← Json.hexDigit? b))
      return byte :: (← escapedBytes more)
    | _ => none
  | _ => some []

/-- The text of a tag with its escapes decoded; `fuel` bounds the number of parts. -/
def decodeTag : (fuel : Nat) → List Char → Option (List Char)
  | 0, _ => some []
  | fuel + 1, cs =>
    match cs with
    | [] => some []
    | '%' :: _ => do
      let bytes ← escapedBytes cs
      let text ← (Utf8.decode bytes).toOption
      return text ++ (← decodeTag fuel (cs.drop (3 * bytes.length)))
    | c :: rest => do return c :: (← decodeTag fuel rest)

/-- Read the text of a tag. -/
def readTagText (c : Cursor) : Except Failure (String × Cursor) :=
  match c.run isTagChar with
  | [] => malformed
  | cs =>
    match decodeTag (cs.length + 1) cs with
    | some text => .ok (.ofList text, c.skip cs.length)
    | none => malformed

/-- Read the handle of a directive and what it stands for. -/
def readTagDirective (c : Cursor) : Except Failure (Directive × Cursor) := do
  let (handle, c) ← readHandle c.skipSpaces
  if !c.sees ' ' then malformed
  else
    let (base, c) ← readTagText c.skipSpaces
    if spaceNext c.rest then return (.tag handle base, c) else malformed

/-- Read a directive. One with an unknown name says nothing. -/
def readDirective (c : Cursor) : Except Failure (Directive × Cursor) := do
  let name := c.next.run isNameChar
  let c := c.skip (name.length + 1)
  if name.isEmpty || !spaceNext c.rest then malformed
  else
    let (d, c) ←
      if name == "YAML".toList then readVersion c
      else if name == "TAG".toList then readTagDirective c
      else .ok (.other, c.skipRun (! isBreak ·))
    return (d, ← skipLineRest c)

/-- Read the name of an anchor or an alias. -/
def readAnchor (c : Cursor) : Except Failure (String × Cursor) :=
  let name := c.next.run isNameChar
  let after := c.skip (name.length + 1)
  let closed := blankNext after.rest ||
    (after.peek?.map ['?', ':', ',', ']', '\x7d', '%', '@', '\x60'].contains).getD false
  if name.isEmpty || !closed then malformed else .ok (.ofList name, after)

/-- Is there an exclamation mark before the next space or line end? -/
def hasSecondMark (cs : List Char) : Bool := (cs.takeWhile (! isSpaceOrBreak ·)).contains '!'

/-- Read a tag: in angle brackets, a lone mark, or a suffix after a handle. -/
def readTag (c : Cursor) : Except Failure (Token × Cursor) := do
  let (t, c) ←
    if c.next.sees '<' then do
      let (suffix, c) ← readTagText (c.skip 2)
      if c.sees '>' then pure (Token.tag none suffix, c.next) else malformed
    else if blankNext c.next.rest then pure (Token.tag none "!", c.next)
    else do
      let (handle, c) ← if hasSecondMark c.next.rest then readHandle c else pure ("!", c.next)
      let (suffix, c) ← readTagText c
      pure (Token.tag (some handle) suffix, c)
  if spaceNext c.rest then return (t, c) else malformed

/-! ## Tokens -/

/-- Start of a flow collection. -/
def openFlow (s : Scanner) (t : Token) : Except Failure Scanner := do
  let s ← s.saveKey
  return ({ s with flow := s.flow + 1, keyAllowed := true }.moveTo s.cursor.next).push t

/-- End of a flow collection. -/
def closeFlow (s : Scanner) (t : Token) : Except Failure Scanner := do
  let s ← s.dropKey
  if s.flow == 0 then malformed
  else return ({ s with flow := s.flow - 1, keyAllowed := false }.moveTo s.cursor.next).push t

/-- A mark between documents, or a directive. -/
def outside (s : Scanner) (t : Token) (after : Cursor) : Except Failure Scanner := do
  let s ← (s.unwind (-1)).dropKey
  return ((s.allow false).moveTo after).push t

/-- A comma of a flow collection. -/
def flowComma (s : Scanner) : Except Failure Scanner := do
  let s ← s.dropKey
  return ((s.allow true).moveTo s.cursor.next).push .comma

/-- A dash of a block sequence. -/
def blockEntry (s : Scanner) : Except Failure Scanner := do
  if s.flow == 0 && !s.keyAllowed then malformed
  else
    let s ← (s.indentTo s.cursor.column s.count .sequenceStart).dropKey
    return ((s.allow true).moveTo s.cursor.next).push .entry

/-- A question mark before a key. -/
def explicitKey (s : Scanner) : Except Failure Scanner := do
  if s.flow == 0 && !s.keyAllowed then malformed
  else
    let s ← (s.indentTo s.cursor.column s.count .mappingStart).dropKey
    return ((s.allow (s.flow == 0)).moveTo s.cursor.next).push .key

/-- A colon before a value. A possible key of this level becomes a key. -/
def keyValue (s : Scanner) : Except Failure Scanner := do
  match s.keys.lookup s.flow with
  | some k =>
    let s := { s with keys := s.keys.filter (·.1 != s.flow) }
    -- The mapping starts before its first key, so its token goes in at the same place after the key's.
    let s := (s.insertAt k.count .key).indentTo k.column k.count .mappingStart
    return ((s.allow false).moveTo s.cursor.next).push .value
  | none =>
    -- Nothing before the colon can be the key, so the key is the empty node.
    if s.flow == 0 && !s.keyAllowed then malformed
    else
      let s ← (s.indentTo s.cursor.column s.count .mappingStart).dropKey
      return ((s.allow (s.flow == 0)).moveTo s.cursor.next).push .value

/-- An alias, an anchor, a tag or a quoted scalar, any of which may start a key. -/
def keyPart (s : Scanner) (read : Cursor → Except Failure (Token × Cursor)) : Except Failure Scanner := do
  let s ← s.saveKey
  let (t, after) ← read s.cursor
  return ((s.allow false).moveTo after).push t

/-- A quoted scalar. -/
def quotedScalar (s : Scanner) (double : Bool) : Except Failure Scanner :=
  s.keyPart fun c => do
    let (text, after) ← quotedRest double c.rest.length c.next
    return (.scalar (.ofList text) false, after)

/-- A block scalar. -/
def blockScalar (s : Scanner) (folded : Bool) : Except Failure Scanner := do
  let s ← (s.allow true).dropKey
  let (text, after) ← readBlock folded s.indent s.cursor.next
  return (s.moveTo after).push (.scalar (.ofList text) false)

/-- A plain scalar. A key may follow it if it ends at the end of a line. -/
def plainScalar (s : Scanner) : Except Failure Scanner := do
  let s ← s.saveKey
  let (text, ended, after) := plainWords (s.flow != 0) s.indent s.cursor.rest.length [] s.cursor
  return ((s.allow ended).moveTo after).push (.scalar (.ofList text) true)

/-- Characters that cannot start a plain scalar on their own. -/
def indicators : List Char := [
  '-', '?', ':', ',', '[', ']', '\x7b', '\x7d', '#', '&', '*', '!', '|', '>', '\x27', '\x22', '%',
  '@', '\x60']

/-- May a plain scalar start with this character? -/
def startsPlain (flow : Bool) (c : Char) (rest : List Char) : Bool :=
  (!isBlank c && !indicators.contains c)
    || (!blankNext rest && (c == '-' || (!flow && (c == '?' || c == ':'))))

/-- Read the token that starts with the character `x` at the cursor. -/
def readToken (s : Scanner) (x : Char) : Except Failure Scanner := do
  let c := s.cursor
  let flow := s.flow != 0
  let atStart := c.column == 0
  let blank := blankNext c.next.rest
  -- Directives and marks count only at the start of a line.
  if x == '%' && atStart then
    let (d, after) ← readDirective c
    s.outside (.directive d) after
  else if atStart && c.seesMark "---" then s.outside .documentStart (c.skip 3)
  else if atStart && c.seesMark "..." then s.outside .documentEnd (c.skip 3)
  else if x == '[' then s.openFlow .openBracket
  else if x == '\x7b' then s.openFlow .openBrace
  else if x == ']' then s.closeFlow .closeBracket
  else if x == '\x7d' then s.closeFlow .closeBrace
  else if x == ',' then s.flowComma
  else if x == '-' && blank then s.blockEntry
  else if x == '?' && (flow || blank) then s.explicitKey
  else if x == ':' && (flow || blank) then s.keyValue
  else if x == '*' then s.keyPart fun c => do
    let (name, after) ← readAnchor c
    return (.aliasOf name, after)
  else if x == '&' then s.keyPart fun c => do
    let (name, after) ← readAnchor c
    return (.anchor name, after)
  else if x == '!' then s.keyPart readTag
  else if x == '|' && !flow then s.blockScalar false
  else if x == '>' && !flow then s.blockScalar true
  else if x == '\x27' then s.quotedScalar false
  else if x == '\x22' then s.quotedScalar true
  -- What no indicator claims is a plain scalar.
  else if startsPlain flow x c.next.rest then s.plainScalar
  else malformed

/-- Read all tokens. Each takes at least one character, so the length of the text bounds their number,
`fuel`. -/
def readAll : (fuel : Nat) → Scanner → Except Failure (List Token)
  | 0, _ => malformed
  | fuel + 1, s => do
    let s ← (toNext (s.cursor.rest.length + 1) s).dropStaleKeys
    let s := s.unwind s.cursor.column
    match s.cursor.peek? with
    | none =>
      let s ← (s.unwind (-1)).dropKey
      return s.tokens.reverse
    | some x => readAll fuel (← s.readToken x)

end Scanner

/-- The tokens of a text. A byte order mark at its front is passed over. -/
def Token.ofText (text : List Char) : Except Failure (List Token) :=
  if text.all isAllowed then
    let start : Cursor := { rest := text }
    Scanner.readAll (text.length + 1) { cursor := if start.sees '\ufeff' then start.next else start }
  else malformed

end ClientGen.Document.Yaml
