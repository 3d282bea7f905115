import ClientGen.Dictionary

/-!
# Invocations

What a command line asks for. Options and the path of the document come in any order. The value of an
option is the next word, or it is attached: after the letter of a short option, or after an equals sign
for a long one. Of an option that is given twice the last value counts, and after two dashes alone no
word is an option.
-/

namespace ClientGen.Command

/-- An option of the command. -/
inductive Switch where
  | output | namespaceName | settings | tables | fallback | dryRun | verbose | help
  deriving DecidableEq, Repr

/-- Does the option come with a value? -/
def Switch.takesValue : Switch → Bool
  | output | namespaceName | settings | tables | fallback => true
  | dryRun | verbose | help => false

/-- The long options. -/
def longOptions : List (String × Switch) := [
  ("--output", .output), ("--namespace", .namespaceName), ("--config", .settings),
  ("--tables", .tables), ("--fallback-resource", .fallback), ("--dry-run", .dryRun),
  ("--verbose", .verbose), ("--help", .help)]

/-- The short options. -/
def shortOptions : List (Char × Switch) := [('o', .output), ('v', .verbose)]

/-- What the words so far ask for. `pending` is an option whose value comes next. -/
structure Draft where
  values : Dictionary Switch String := []
  paths : List String := []
  pending : Option Switch := none
  literal : Bool := false

namespace Draft

/-- Record an option, with its value if it has one. -/
def record (d : Draft) (s : Switch) (value : String) : Draft :=
  { d with values := Dictionary.put d.values s value, pending := none }

/-- Take in the letters after a dash. -/
def addLetters (d : Draft) : List Char → Option Draft
  | [] => some d
  | c :: rest => do
    let s ← shortOptions.lookup c
    if !s.takesValue then addLetters (d.record s "") rest
    else if rest.isEmpty then some { d with pending := some s }
    else some (d.record s (.ofList rest))

/-- Take in a long option, which may have a value attached. -/
def addLong (d : Draft) (word : List Char) : Option Draft := do
  let name := word.takeWhile (· != '=')
  let attached := word.drop name.length
  let s ← longOptions.lookup (.ofList name)
  match s.takesValue, attached with
  | true, [] => some { d with pending := some s }
  | true, _ :: value => some (d.record s (.ofList value))
  | false, [] => some (d.record s "")
  | false, _ :: _ => none

/-- Take in a word. -/
def add (d : Draft) (word : String) : Option Draft :=
  match d.pending with
  | some s => some (d.record s word)
  | none =>
    let path := some { d with paths := d.paths ++ [word] }
    if d.literal then path
    else
      match word.toList with
      | ['-', '-'] => some { d with literal := true }
      | '-' :: '-' :: _ => d.addLong word.toList
      | '-' :: c :: rest => d.addLetters (c :: rest)
      | _ => path

end Draft

/-- A well-formed request. -/
structure Invocation where
  document : String
  output : String
  namespaceName : Option String
  settings : Option String
  tables : Option String
  fallback : Option String
  dryRun : Bool
  verbose : Bool
  deriving Repr

/-- What a command line asks for. -/
inductive Request where
  | run (i : Invocation)
  | help
  | malformed

/-- Read a command line. -/
def Request.ofWords (words : List String) : Request :=
  match words.foldlM Draft.add {} with
  | none => .malformed
  | some d =>
    let value? (s : Switch) : Option String := Dictionary.get? d.values s
    if d.pending.isSome then .malformed
    else if (value? .help).isSome then .help
    else
      match d.paths, value? .output with
      | [document], some output => .run {
          document
          output
          namespaceName := value? .namespaceName
          settings := value? .settings
          tables := value? .tables
          fallback := value? .fallback
          dryRun := (value? .dryRun).isSome
          verbose := (value? .verbose).isSome }
      | _, _ => .malformed

end ClientGen.Command
