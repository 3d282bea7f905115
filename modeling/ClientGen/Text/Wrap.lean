import ClientGen.Text.Class
import ClientGen.Text.Lines

/-!
# Wrapping text

Text is wrapped line by line. A line is cut into chunks: runs of blanks, dashes between words, and
words, where a hyphen between letters ends a chunk too. Chunks are then placed on lines of bounded
width; blanks at the seams are dropped and a chunk that fits on no line is cut.
-/

namespace ClientGen.Text

/-- The blanks that separate words. -/
def isSeparator (c : Char) : Bool :=
  c == ' ' || c == '\t' || c == '\n' || c == '\r' || c == '\x0b' || c == '\x0c'

/-- A character after which two or more dashes stand between words. -/
def endsPhrase (c : Char) : Bool :=
  isWord c || ['!', '\x22', '\x27', '&', '.', ',', '?'].contains c

/-- Two or more dashes start here and a word follows them; `before` is the text up to here, last
character first. -/
def dashHere (before rest : List Char) : Bool :=
  match before, rest with
  | p :: _, '-' :: '-' :: more =>
    endsPhrase p &&
      match more.dropWhile (· == '-') with
      | w :: _ => isWord w
      | [] => false
  | _, _ => false

/-- May a chunk end with a hyphen between these texts? Two letters stand before it, or two letters
with a hyphen between them, and the same after it. -/
def hyphenHere (before rest : List Char) : Bool :=
  (match before with
    | a :: '-' :: b :: _ => isLetter a && isLetter b
    | a :: b :: _ => isLetter a && isLetter b
    | _ => false) &&
  (match rest with
    | a :: '-' :: b :: _ => isLetter a && isLetter b
    | a :: b :: _ => isLetter a && isLetter b
    | _ => false)

/-- What the chunk being read consists of. -/
inductive ChunkKind where
  /-- nothing yet -/
  | fresh
  /-- blanks -/
  | blank
  /-- dashes between words -/
  | dash
  /-- a word or part of a word -/
  | word

/-- Write a character in front of the first chunk. -/
def pushChunk (c : Char) : List (List Char) → List (List Char)
  | [] => [[c]]
  | chunk :: more => (c :: chunk) :: more

/-- The rest of the current chunk and the chunks after it. -/
def chunksFrom (kind : ChunkKind) (before : List Char) : List Char → List (List Char)
  | [] => [[]]
  | c :: rest =>
    let opened : ChunkKind :=
      if isSeparator c then .blank else if dashHere before (c :: rest) then .dash else .word
    let extend (k : ChunkKind) := pushChunk c (chunksFrom k (c :: before) rest)
    match kind with
    | .fresh => extend opened
    | .blank => if isSeparator c then extend .blank else [] :: extend opened
    | .dash => if c == '-' then extend .dash else [] :: extend opened
    | .word =>
      if isSeparator c then [] :: extend .blank
      else if c == '-' && hyphenHere before rest then [c] :: chunksFrom .fresh (c :: before) rest
      else if dashHere before (c :: rest) then [] :: extend .dash
      else extend .word

/-- The chunks of a line. -/
def chunks (line : List Char) : List (List Char) :=
  (chunksFrom .fresh [] line).filter (! ·.isEmpty)

/-- Is there nothing but blanks in the chunk? -/
def isBlankChunk (chunk : List Char) : Bool := chunk.all isBlank

/-- The chunks that fit into `room` characters, and the others. -/
def takeFitting (room : Nat) : List (List Char) → List (List Char) × List (List Char)
  | [] => ([], [])
  | chunk :: more =>
    if chunk.length ≤ room then
      let (fitting, others) := takeFitting (room - chunk.length) more
      (chunk :: fitting, others)
    else ([], chunk :: more)

/-- Where to cut a chunk that has only `room` characters left: after the last hyphen in the room if
something else stands before it, else at the end of the room. -/
def cutPoint (room : Nat) (chunk : List Char) : Nat :=
  let back := (chunk.take room).reverse.dropWhile (· != '-')
  let h := back.length - 1
  if back.length > 1 && (chunk.take h).any (· != '-') then back.length else room

/-- Drop a blank chunk at the front. -/
def dropBlankHead : List (List Char) → List (List Char)
  | chunk :: more => if isBlankChunk chunk then more else chunk :: more
  | [] => []

/-- Drop a blank chunk at the end. -/
def dropBlankLast (line : List (List Char)) : List (List Char) :=
  (dropBlankHead line.reverse).reverse

/-- Place chunks on lines of at most `width` characters; `started` tells that a line was written
already. Each line takes at least one character, so the number of characters bounds the number of
lines, `fuel`. -/
def fill (width : Nat) : (fuel : Nat) → (started : Bool) → List (List Char) → List (List Char)
  | 0, _, _ => []
  | _ + 1, _, [] => []
  | fuel + 1, started, chunk :: more =>
    let pending := if started then dropBlankHead (chunk :: more) else chunk :: more
    let (fitting, others) := takeFitting width pending
    -- A chunk that fits on no line fills up this one.
    let room := width - (fitting.map List.length).sum
    let (line, others) :=
      match others with
      | long :: more =>
        if long.length > width then
          (fitting ++ [long.take (cutPoint room long)], long.drop (cutPoint room long) :: more)
        else (fitting, others)
      | [] => (fitting, others)
    let line := dropBlankLast line
    if line.isEmpty then fill width fuel started others
    else line.flatten :: fill width fuel true others

/-- The lines that one line of text is wrapped into. -/
def wrapLine (width : Nat) (line : List Char) : List (List Char) :=
  fill width (line.length + 1) false (chunks line)

/-- The text with every line wrapped to `width` characters. -/
def wrap (width : Nat) (text : String) : String :=
  "\n".intercalate ((lines text.toList).map fun line =>
    "\n".intercalate ((wrapLine width line).map String.ofList))

end ClientGen.Text
