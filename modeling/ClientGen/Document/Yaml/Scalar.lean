import ClientGen.Document.Json.Reader
import ClientGen.Document.Yaml.Cursor
import ClientGen.Document.Yaml.Failure

/-!
# The text of scalars

Scalars are written plainly, in single or double quotes, or as a block. Each form folds line ends in its
own way. The readers here take a bound on their steps, `fuel`; the number of characters left is always
enough, because each step takes at least one.
-/

namespace ClientGen.Document.Yaml

/-- A text that is not YAML. -/
def malformed {α : Type} : Except Failure α := .error .malformed

/-- The text for a line end with further ones after it: a single one becomes a space. -/
def fold (first : Char) (more : List Char) : List Char :=
  if first != '\n' then first :: more else if more.isEmpty then [' '] else more

/-! ## Plain scalars -/

/-- Does a plain scalar end before this character? -/
def endsPlain (flow : Bool) (c : Char) (rest : List Char) : Bool :=
  isBlank c
    || (c == ':' &&
      (blankNext rest || (flow && (rest.head?.map [',', '[', ']', '\x7b', '\x7d'].contains).getD false)))
    || (flow && [',', '?', '[', ']', '\x7b', '\x7d'].contains c)

/-- The next word of a plain scalar. -/
def plainWord (flow : Bool) : List Char → List Char
  | [] => []
  | c :: rest => if endsPlain flow c rest then [] else c :: plainWord flow rest

/-- The line ends at the cursor, up to a mark between documents, which ends the scalar. -/
def plainBreaks : (fuel : Nat) → Cursor → Option (List Char) × Cursor
  | 0, c => (some [], c)
  | fuel + 1, c =>
    if c.sees ' ' then plainBreaks fuel c.next
    else
      match c.lineEnd? with
      | none => (some [], c)
      | some (b, after) =>
        if after.seesDocumentMark then (none, after)
        else
          let (more, last) := plainBreaks fuel after
          (more.map (b :: ·), last)

/-- What stands between two words of a plain scalar, nothing if the scalar ends here, and whether a line
ended. -/
def plainSpace (c : Cursor) : List Char × Bool × Cursor :=
  let spaces := c.run (· == ' ')
  let c := c.skipSpaces
  match c.lineEnd? with
  | none => (spaces, false, c)
  | some (b, after) =>
    if after.seesDocumentMark then ([], true, after)
    else
      match plainBreaks after.rest.length after with
      | (some more, last) => (fold b more, true, last)
      | (none, last) => ([], true, last)

/-- The words of a plain scalar whose lines are indented by more than `indent`, with `space` before the
first. The last component tells whether a line ended after the last word. -/
def plainWords (flow : Bool) (indent : Int) :
    (fuel : Nat) → (space : List Char) → Cursor → List Char × Bool × Cursor
  | 0, _, c => ([], false, c)
  | fuel + 1, space, c =>
    let word := plainWord flow c.rest
    let (between, ended, after) := plainSpace (c.skip word.length)
    let text := space ++ word
    if between.isEmpty || after.sees '#' || (!flow && (after.column : Int) ≤ indent)
        || (plainWord flow after.rest).isEmpty then
      (text, ended, after)
    else
      let (more, ended, last) := plainWords flow indent fuel between after
      (text ++ more, ended, last)

/-! ## Quoted scalars -/

/-- The line ends inside a quoted scalar. -/
def quotedBreaks : (fuel : Nat) → Cursor → Except Failure (List Char × Cursor)
  | 0, _ => malformed
  | fuel + 1, c =>
    if c.seesDocumentMark then malformed
    else
      let c := c.skipRun fun x => x == ' ' || x == '\t'
      match c.lineEnd? with
      | none => .ok ([], c)
      | some (b, after) => do
        let (more, last) ← quotedBreaks fuel after
        return (b :: more, last)

/-- The blanks inside a quoted scalar: folded if a line ends, else as they are. -/
def quotedBlanks (c : Cursor) : Except Failure (List Char × Cursor) :=
  let blanks := c.run fun x => x == ' ' || x == '\t'
  let c := c.skip blanks.length
  match c.lineEnd? with
  | some (b, after) => do
    let (more, last) ← quotedBreaks (after.rest.length + 1) after
    return (fold b more, last)
  | none => if c.rest.isEmpty then malformed else .ok (blanks, c)

/-- The character that a short escape in double quotes stands for. -/
def escape? : Char → Option Char
  | '0' => some '\x00'
  | 'a' => some '\x07'
  | 'b' => some '\x08'
  | 't' | '\t' => some '\t'
  | 'n' => some '\n'
  | 'v' => some '\x0b'
  | 'f' => some '\x0c'
  | 'r' => some '\r'
  | 'e' => some '\x1b'
  | ' ' => some ' '
  | '\x22' => some '\x22'
  | '\x5c' => some '\x5c'
  | '/' => some '/'
  | 'N' => some '\u0085'
  | '_' => some '\u00a0'
  | 'L' => some '\u2028'
  | 'P' => some '\u2029'
  | _ => none

/-- The number of hexadecimal digits after an escape. -/
def escapeWidth? : Char → Option Nat
  | 'x' => some 2
  | 'u' => some 4
  | 'U' => some 8
  | _ => none

/-- The number that hexadecimal digits stand for. -/
def hexNumber? (digits : List Char) : Option Nat :=
  digits.foldlM (fun n d => (Json.hexDigit? d).map (16 * n + ·)) 0

/-- An escape in double quotes, with the cursor at the character after the backslash. -/
def readEscape (c : Cursor) : Except Failure (List Char × Cursor) :=
  match c.peek? with
  | none => malformed
  | some x =>
    match escape? x, escapeWidth? x with
    | some y, _ => .ok ([y], c.next)
    | none, some width =>
      let digits := (c.rest.drop 1).take width
      match hexNumber? digits with
      | some n =>
        if digits.length < width then malformed
        else if n < 0x110000 then .ok ([Char.ofNat n], c.skip (width + 1))
        else .error (.content "chr() arg not in range(0x110000)")
      | none => malformed
    | none, none =>
      -- An escaped line end is dropped with the blanks after it.
      match c.lineEnd? with
      | some (_, after) => quotedBreaks (after.rest.length + 1) after
      | none => malformed

/-- The rest of a quoted scalar after its opening quote. -/
def quotedRest (double : Bool) : (fuel : Nat) → Cursor → Except Failure (List Char × Cursor)
  | 0, _ => malformed
  | fuel + 1, c =>
    let quote := if double then '\x22' else '\x27'
    match c.peek? with
    | none => malformed
    | some x => do
      if x == quote then
        -- Two single quotes stand for one.
        if !double && c.next.sees quote then
          let (more, last) ← quotedRest double fuel (c.skip 2)
          return (quote :: more, last)
        else return ([], c.next)
      else
        let (part, after) ←
          if double && x == '\x5c' then readEscape c.next
          else if isBlank x then quotedBlanks c
          else .ok ([x], c.next)
        let (more, last) ← quotedRest double fuel after
        return (part ++ more, last)

/-! ## Block scalars -/

/-- What is done with the line ends at the end of a block. -/
inductive Chomping where
  | strip | clip | keep
  deriving DecidableEq

/-- The chomping that a sign asks for. -/
def chomping? : Option Char → Option Chomping
  | some '+' => some .keep
  | some '-' => some .strip
  | _ => none

/-- The indentation that a digit asks for; zero is not allowed. -/
def increment? (c : Option Char) : Option Nat := (c.filter Char.isDigit).map fun d => d.toNat - 48

/-- The indicators after the sign of a block: chomping and indentation in any order. -/
def blockIndicators (c : Cursor) : Except Failure ((Chomping × Option Nat) × Cursor) := do
  let (chomping, increment, after) :=
    match chomping? c.peek?, increment? c.peek? with
    | some chomping, _ =>
      match increment? c.next.peek? with
      | some n => (chomping, some n, c.skip 2)
      | none => (chomping, none, c.next)
    | none, some n =>
      match chomping? c.next.peek? with
      | some chomping => (chomping, some n, c.skip 2)
      | none => (.clip, some n, c.next)
    | none, none => (.clip, none, c)
  if increment == some 0 || !spaceNext after.rest then malformed
  else return ((chomping, increment), after)

/-- The cursor after the rest of a line that may hold a comment only. -/
def skipLineRest (c : Cursor) : Except Failure Cursor :=
  let c := c.skipSpaces.skipComment
  if breakNext c.rest then .ok ((c.lineEnd?.map (·.2)).getD c) else malformed

/-- The line ends before the first line of a block, and the greatest column that spaces reach there. -/
def leadingBreaks : (fuel : Nat) → (width : Nat) → Cursor → List Char × Nat × Cursor
  | 0, width, c => ([], width, c)
  | fuel + 1, width, c =>
    if c.sees ' ' then leadingBreaks fuel (max width c.next.column) c.next
    else
      match c.lineEnd? with
      | none => ([], width, c)
      | some (b, after) =>
        let (more, width, last) := leadingBreaks fuel width after
        (b :: more, width, last)

/-- The cursor after spaces up to a column. -/
def skipIndent (indent : Nat) (c : Cursor) : Cursor :=
  c.skip (min (c.run (· == ' ')).length (indent - c.column))

/-- The line ends of empty lines in a block. -/
def blockBreaks (indent : Nat) : (fuel : Nat) → Cursor → List Char × Cursor
  | 0, c => ([], c)
  | fuel + 1, c =>
    let c := skipIndent indent c
    match c.lineEnd? with
    | none => ([], c)
    | some (b, after) =>
      let (more, last) := blockBreaks indent fuel after
      (b :: more, last)

/-- Is the next character a space or a tab? -/
def seesSpaceOrTab (c : Cursor) : Bool := c.sees ' ' || c.sees '\t'

/-- The lines of a block with the given indentation, `breaks` standing before the first. -/
def blockLines (folded : Bool) (chomping : Chomping) (indent : Nat) :
    (fuel : Nat) → (breaks : List Char) → Cursor → List Char × Cursor
  | 0, _, c => ([], c)
  | fuel + 1, breaks, c =>
    let line := c.run (! isBreak ·)
    let ended := c.skip line.length
    let (lineEnd, after) :=
      match ended.lineEnd? with
      | some (b, after) => ([b], after)
      | none => ([], ended)
    let (more, last) := blockBreaks indent (after.rest.length + 1) after
    if last.column == indent && !last.rest.isEmpty then
      -- A folded line end joins two lines, unless one of them is indented further than the block.
      let seam :=
        if folded && lineEnd == ['\n'] && !seesSpaceOrTab c && !seesSpaceOrTab last then
          (if more.isEmpty then [' '] else [])
        else lineEnd
      let (others, final) := blockLines folded chomping indent fuel more last
      (breaks ++ line ++ seam ++ others, final)
    else
      let final :=
        match chomping with
        | .strip => []
        | .clip => lineEnd
        | .keep => lineEnd ++ more
      (breaks ++ line ++ final, last)

/-- A block after its sign. Its lines are indented by more than `parent`. -/
def readBlock (folded : Bool) (parent : Int) (c : Cursor) : Except Failure (List Char × Cursor) := do
  let ((chomping, increment), c) ← blockIndicators c
  let c ← skipLineRest c
  let least := (max (parent + 1) 1).toNat
  let (breaks, indent, c) :=
    match increment with
    | none =>
      let (breaks, width, c) := leadingBreaks (c.rest.length + 1) 0 c
      (breaks, max least width, c)
    | some n =>
      let indent := least + n - 1
      let (breaks, c) := blockBreaks indent (c.rest.length + 1) c
      (breaks, indent, c)
  if c.column == indent && !c.rest.isEmpty then
    return blockLines folded chomping indent (c.rest.length + 1) breaks c
  else return (if chomping == .keep then breaks else [], c)

end ClientGen.Document.Yaml
