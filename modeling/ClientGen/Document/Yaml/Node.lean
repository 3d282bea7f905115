import ClientGen.Dictionary
import ClientGen.Document.Yaml.Tag
import ClientGen.Document.Yaml.Token

/-!
# YAML nodes

The tokens of a text as a tree of tagged nodes. An anchor names a node, and an alias stands for the node
named before it. The readers take a bound on their depth, `fuel`: of four nested calls at least one takes
a token, so four times the number of tokens is always enough.
-/

namespace ClientGen.Document.Yaml

/-- A node of a document. -/
inductive Node where
  | scalar (tag : Tag) (text : String)
  | sequence (tag : Tag) (items : List Node)
  | mapping (tag : Tag) (entries : List (Node × Node))

/-- The node of a place where nothing is written. -/
def Node.empty : Node := .scalar .null ""

/-- What tag handles stand for. -/
abbrev Handles := Dictionary String String

/-- The handles that are always known. -/
def standardHandles : Handles := [("!", "!"), ("!!", Tag.standard)]

/-- The tokens that are left and the names that are known. -/
structure Parsing where
  tokens : List Token
  anchors : Dictionary String Node := []
  handles : Handles := standardHandles

namespace Parsing

/-- Is the next token one of these? -/
def sees (p : Parsing) (ts : List Token) : Bool := (p.tokens.head?.map ts.contains).getD false

/-- The state after the next token. -/
def next (p : Parsing) : Parsing := { p with tokens := p.tokens.tail }

/-- Name a node. A name is given once. -/
def define (p : Parsing) (anchor : Option String) (n : Node) : Except Failure Parsing :=
  match anchor with
  | none => .ok p
  | some name =>
    if Dictionary.has p.anchors name then malformed
    else .ok { p with anchors := Dictionary.put p.anchors name n }

end Parsing

/-- What is written before the content of a node. -/
structure Properties where
  anchor : Option String := none
  tag : Option (Option String × String) := none

/-- The anchor and the tag at the front of the tokens, in either order. -/
def properties : List Token → Properties × List Token
  | .anchor a :: .tag h s :: rest => ({ anchor := some a, tag := some (h, s) }, rest)
  | .anchor a :: rest => ({ anchor := some a }, rest)
  | .tag h s :: .anchor a :: rest => ({ anchor := some a, tag := some (h, s) }, rest)
  | .tag h s :: rest => ({ tag := some (h, s) }, rest)
  | rest => ({}, rest)

/-- The name of a tag, its handle written out. Its handle has to be known. -/
def tagName (handles : Handles) : Option (Option String × String) → Except Failure (Option String)
  | none => .ok none
  | some (none, suffix) => .ok (some suffix)
  | some (some handle, suffix) =>
    match Dictionary.get? handles handle with
    | some base => .ok (some (base ++ suffix))
    | none => malformed

/-- The tag of a scalar. A plain one without a tag is tagged by its form, and so is one whose tag is a
lone exclamation mark. -/
def scalarTag (name : Option String) (plain : Bool) (text : String) : Tag :=
  match name with
  | none => if plain then .ofPlain text.toList else .str
  | some "!" => .ofPlain text.toList
  | some name => .ofName name

/-- The tag of a collection. -/
def collectionTag (name : Option String) (usual : Tag) : Tag :=
  match name with
  | none | some "!" => usual
  | some name => .ofName name

/-- The scalar of an anchor or a tag with nothing after it. -/
def bareNode (name : Option String) : Node := .scalar (scalarTag name true "") ""

mutual

/-- Read a node. A block collection may start only if `block` holds, and a block sequence without
indentation of its own only if `flush` holds. -/
def readNode (block flush : Bool) : (fuel : Nat) → Parsing → Except Failure (Node × Parsing)
  | 0, _ => malformed
  | fuel + 1, p =>
    match p.tokens with
    | .aliasOf name :: rest =>
      match Dictionary.get? p.anchors name with
      | some n => .ok (n, { p with tokens := rest })
      | none => malformed
    | tokens => do
      let (given, rest) := properties tokens
      let name ← tagName p.handles given.tag
      let inner : Parsing := { p with tokens := rest }
      let (n, after) ← readContent block flush (given.anchor.isSome || name.isSome) name fuel inner
      return (n, ← after.define given.anchor n)

/-- Read the content of a node. It may be missing if a name or a tag is given. -/
def readContent (block flush given : Bool) (name : Option String) :
    (fuel : Nat) → Parsing → Except Failure (Node × Parsing)
  | 0, _ => malformed
  | fuel + 1, p =>
    let sequence (read : Except Failure (List Node × Parsing)) : Except Failure (Node × Parsing) := do
      let (items, after) ← read
      return (.sequence (collectionTag name .seq) items, after)
    let mapping (read : Except Failure (List (Node × Node) × Parsing)) :
        Except Failure (Node × Parsing) := do
      let (entries, after) ← read
      return (.mapping (collectionTag name .map) entries, after)
    let missing : Except Failure (Node × Parsing) :=
      if given then .ok (bareNode name, p) else malformed
    match p.tokens with
    | .scalar text plain :: _ => .ok (.scalar (scalarTag name plain text) text, p.next)
    | .openBracket :: _ => sequence (readFlowItems true fuel p.next)
    | .openBrace :: _ => mapping (readFlowEntries true fuel p.next)
    | .entry :: _ => if flush then sequence (readItems true fuel p) else missing
    | .sequenceStart :: _ => if block then sequence (readItems false fuel p.next) else missing
    | .mappingStart :: _ => if block then mapping (readEntries fuel p.next) else missing
    | _ => missing

/-- Read a node of a block, or nothing if one of the tokens `stops` comes next. -/
def readBlockNode (flush : Bool) (stops : List Token) :
    (fuel : Nat) → Parsing → Except Failure (Node × Parsing)
  | 0, _ => malformed
  | fuel + 1, p => if p.sees stops then .ok (.empty, p) else readNode true flush fuel p

/-- Read the items of a block sequence. One without indentation of its own has no end token. -/
def readItems (flush : Bool) : (fuel : Nat) → Parsing → Except Failure (List Node × Parsing)
  | 0, _ => malformed
  | fuel + 1, p =>
    if p.sees [.entry] then do
      -- Without an end token of its own, the list ends where the mapping around it goes on.
      let stops : List Token := if flush then [.entry, .key, .value, .blockEnd] else [.entry, .blockEnd]
      let (item, after) ← readBlockNode false stops fuel p.next
      let (more, last) ← readItems flush fuel after
      return (item :: more, last)
    else if flush then .ok ([], p)
    else if p.sees [.blockEnd] then .ok ([], p.next)
    else malformed

/-- Read the entries of a block mapping. -/
def readEntries : (fuel : Nat) → Parsing → Except Failure (List (Node × Node) × Parsing)
  | 0, _ => malformed
  | fuel + 1, p =>
    let stops : List Token := [.key, .value, .blockEnd]
    if p.sees [.key] then do
      let (key, after) ← readBlockNode true stops fuel p.next
      let (value, after) ←
        if after.sees [.value] then readBlockNode true stops fuel after.next else .ok (.empty, after)
      let (more, last) ← readEntries fuel after
      return ((key, value) :: more, last)
    else if p.sees [.blockEnd] then .ok ([], p.next)
    else malformed

/-- Read a node of a flow collection, or nothing if one of the tokens `stops` comes next. -/
def readFlowNode (stops : List Token) : (fuel : Nat) → Parsing → Except Failure (Node × Parsing)
  | 0, _ => malformed
  | fuel + 1, p => if p.sees stops then .ok (.empty, p) else readNode false false fuel p

/-- Read a key and its value in a flow collection that `close` ends, after the token for the key. -/
def readFlowPair (close : Token) : (fuel : Nat) → Parsing → Except Failure ((Node × Node) × Parsing)
  | 0, _ => malformed
  | fuel + 1, p => do
    let (key, after) ← readFlowNode [.value, .comma, close] fuel p
    let (value, after) ←
      if after.sees [.value] then readFlowNode [.comma, close] fuel after.next
      else .ok (.empty, after)
    return ((key, value), after)

/-- Read the items of a flow sequence up to its bracket. An item may be a pair, which is a mapping. -/
def readFlowItems (first : Bool) : (fuel : Nat) → Parsing → Except Failure (List Node × Parsing)
  | 0, _ => malformed
  | fuel + 1, p =>
    if p.sees [.closeBracket] then .ok ([], p.next)
    else if !first && !p.sees [.comma] then malformed
    else
      let p := if first then p else p.next
      if p.sees [.closeBracket] then .ok ([], p.next)
      else do
        let (item, after) ←
          if p.sees [.key] then do
            let (pair, after) ← readFlowPair .closeBracket fuel p.next
            pure (Node.mapping .map [pair], after)
          else readNode false false fuel p
        let (more, last) ← readFlowItems false fuel after
        return (item :: more, last)

/-- Read the entries of a flow mapping up to its brace. A key may stand without a value. -/
def readFlowEntries (first : Bool) :
    (fuel : Nat) → Parsing → Except Failure (List (Node × Node) × Parsing)
  | 0, _ => malformed
  | fuel + 1, p =>
    if p.sees [.closeBrace] then .ok ([], p.next)
    else if !first && !p.sees [.comma] then malformed
    else
      let p := if first then p else p.next
      if p.sees [.closeBrace] then .ok ([], p.next)
      else do
        let (entry, after) ←
          if p.sees [.key] then readFlowPair .closeBrace fuel p.next
          else do
            let (key, after) ← readNode false false fuel p
            pure ((key, Node.empty), after)
        let (more, last) ← readFlowEntries false fuel after
        return (entry :: more, last)

end

/-! ## Documents -/

/-- Read the directives before a document: at most one version, which has to be 1, and handles, each of
which is given once. -/
def readDirectives (version : Bool) (handles : Handles) :
    List Token → Except Failure (Handles × List Token)
  | .directive d :: rest =>
    match d with
    | .version major => if version || major != 1 then malformed else readDirectives true handles rest
    | .tag handle base =>
      if Dictionary.has handles handle then malformed
      else readDirectives version (Dictionary.put handles handle base) rest
    | .other => readDirectives version handles rest
  | rest => .ok (handles, rest)

/-- Read the node of a document that starts with a mark or directives. -/
def readMarked (tokens : List Token) : Except Failure (Node × Parsing) := do
  let (given, rest) ← readDirectives false [] tokens
  let handles := given ++ standardHandles.filter fun h => !Dictionary.has given h.1
  let p : Parsing := { tokens := rest, handles }
  if !p.sees [.documentStart] then malformed
  else
    let p := p.next
    match p.tokens with
    | [] | .directive _ :: _ | .documentStart :: _ | .documentEnd :: _ => return (.empty, p)
    | _ => readNode true false (4 * tokens.length) p

/-- Is the token a mark at the end of a document? -/
def isEndMark (t : Token) : Bool := t == .documentEnd

/-- The node of a text that holds at most one document. An empty text has an empty node. -/
def Node.ofTokens (tokens : List Token) : Except Failure Node := do
  let (n, after) ←
    match tokens with
    | [] => pure (Node.empty, { tokens := [] })
    | .directive _ :: _ | .documentStart :: _ => readMarked tokens
    | _ => readNode true false (4 * tokens.length) { tokens }
  if (after.tokens.dropWhile isEndMark).isEmpty then return n else malformed

end ClientGen.Document.Yaml
