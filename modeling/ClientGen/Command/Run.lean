import ClientGen.Command.Invocation
import ClientGen.Files.Load
import ClientGen.Generate

/-!
# Running the command

The command as a function: from the files it can see and the words on its command line to what it
prints, the files it writes and its exit code. The settings and the tables are read first, then the
document; the units are written in order, each after the directories that hold it.
-/

namespace ClientGen.Command

open ClientGen.Document ClientGen.Files

/-- Why a file could not be written. -/
inductive WriteFailure where
  | notADirectory
  | isADirectory
  | alreadyThere
  deriving DecidableEq, Repr

/-- A failure that the command does not word. -/
inductive Crash where
  | misuse (m : Misuse)
  | uncollected
  | writing (f : WriteFailure)

/-- What a run of the command does. -/
structure Report where
  exitCode : Nat
  output : String := ""
  errors : String := ""
  crash : Option Crash := none
  written : Dictionary (List String) String := []

/-! ## Remarks as lines -/

/-- The name under which remarks on a topic are printed. -/
def topicName : Topic → String
  | .loading => "sdkgen.loader"
  | .schemas => "sdkgen.schema_parser"
  | .responses => "sdkgen.responses"
  | .endpoints => "sdkgen.normalizer"
  | .enumerations => "sdkgen.enums"
  | .names => "sdkgen.naming"
  | .units => "sdkgen.codegen"
  | .run => "sdkgen.pipeline"

/-- The name of a level. -/
def levelName : Level → String
  | .debug => "DEBUG"
  | .info => "INFO"
  | .warning => "WARNING"

/-- A line of text. -/
def line (text : String) : String := text ++ "\n"

/-- The line for a remark. -/
def remarkLine (r : Remark) : String :=
  line (levelName r.level ++ " " ++ topicName r.topic ++ ": " ++ r.message)

/-- The lines for remarks; only warnings unless all are asked for. -/
def remarkLines (verbose : Bool) (remarks : List Remark) : String :=
  String.join ((remarks.filter fun r => verbose || r.level == .warning).map remarkLine)

/-! ## Checking the command line -/

/-- What there is at a path as it is written. An empty path leads nowhere, and a path that ends like a
directory does not lead to a file. -/
def pathEntry? (t : Tree) (path : String) : Option Entry :=
  if path == "" then none
  else
    match t.look (.ofText path) with
    | .ok (.file bytes) =>
      if path.endsWith "/" || path.endsWith "/." then none else some (.file bytes)
    | .ok .directory => some .directory
    | .error _ => none

/-- Is there a file at the path? -/
def isFile (t : Tree) (path : String) : Bool :=
  match pathEntry? t path with
  | some (.file _) => true
  | _ => false

/-- Are the files that are read there, and is the output no file? -/
def Invocation.fits (i : Invocation) (t : Tree) : Bool :=
  isFile t i.document && ([i.settings, i.tables].filterMap id).all (isFile t) && !isFile t i.output

/-! ## Writing units -/

/-- Make the directories that names lead through, starting from a directory. -/
def makeDirectories (t : Tree) (here : List String) :
    List String → Except WriteFailure (List String × Tree)
  | [] => .ok (here, t)
  | name :: rest =>
    let inner := Tree.enter here name
    match t.entry? inner with
    | some .directory => makeDirectories t inner rest
    | some (.file _) => .error (if rest.isEmpty then .alreadyThere else .notADirectory)
    | none => makeDirectories (Dictionary.put t inner .directory) inner rest

/-- Write a text to a location. The first part of the result is where it went. -/
def writeText (t : Tree) (l : Location) (text : String) :
    Except WriteFailure (List String × Tree) := do
  let (holder, t) ← makeDirectories t [] l.parent.names
  let names := holder ++ l.names.drop (l.names.length - 1)
  match t.entry? names with
  | some .directory => throw .isADirectory
  | _ => return (names, Dictionary.put t names (.file text.toUTF8.toList))

/-- Write units below a directory: the texts that were written, and what stopped the writing. -/
def writeUnits (t : Tree) (base : Location) (written : Dictionary (List String) String) :
    Unit.Units → Dictionary (List String) String × Option WriteFailure
  | [] => (written, none)
  | (path, text) :: rest =>
    match writeText t (base.join (.ofText path)) text with
    | .ok (names, t) => writeUnits t base (Dictionary.put written names text) rest
    | .error f => (written, some f)

/-! ## The run -/

/-- A text option that is given and not empty. -/
def given? (value : Option String) : Option String := value.filter (· != "")

/-- The settings of an invocation: those of the settings file, with the options laid over them. -/
def Invocation.loadSettings (i : Invocation) (t : Tree) : Except Fault Settings := do
  let base ← (i.settings.map fun path => t.loadSettings (.ofText path)).getD (.ok {})
  let tables ← (i.tables.map fun path => t.loadTables (.ofText path)).getD (.ok base.tables)
  return { base with
    namespaceName := (given? i.namespaceName).getD base.namespaceName
    fallbackResource := (given? i.fallback).getD base.fallbackResource
    tables }

/-- The tables file that the settings name, if they can be read and name one. -/
def namedTables? (t : Tree) (settings : Location) : Option Location :=
  match t.readSettingsData settings with
  | .ok data =>
    match data.field? "tables" with
    | none | some (.map _) => none
    | some path => some (settings.parent.join (.ofText path.display))
  | .error _ => none

/-- The locations that a run looks at, as far as the files in the tree tell. -/
def Invocation.locations (i : Invocation) (t : Tree) : List Location :=
  let settings := i.settings.map Location.ofText
  let paths := i.document :: i.output :: i.tables.toList
  paths.map Location.ofText ++ settings.toList ++ (settings.bind (namedTables? t)).toList

/-- The report of a run that failed after some output. -/
def Report.ofFault (output errors : String) (f : Fault) : Report :=
  let report : Report := { exitCode := 1, output, errors }
  match f with
  | .misuse m => { report with crash := some (.misuse m) }
  | .uncollected _ => { report with crash := some .uncollected }
  | f => { report with errors := errors ++ line ("Error: " ++ f.message?.getD "") }

/-- The report of a run that produced units. -/
def Invocation.deliver (i : Invocation) (t : Tree) (output errors : String) (g : Generated) : Report :=
  let errors := errors ++ String.join (g.collisions.map fun c => line ("Warning: " ++ c.message))
  if i.dryRun then
    { exitCode := 0, output := output ++ String.join (g.units.map fun u => line u.1), errors }
  else
    let base := Location.ofText i.output
    match writeUnits t base [] g.units with
    | (written, some f) => { exitCode := 1, output, errors, crash := some (.writing f), written }
    | (written, none) =>
      let units := toString g.units.length
      let endpoints := toString g.specification.endpoints.length
      let done := "Generated " ++ units ++ " units for " ++ endpoints ++ " endpoints in " ++ base.text
      { exitCode := 0, output := output ++ line done, errors, written }

/-- Run a request whose files are there. -/
def Invocation.perform (i : Invocation) (t : Tree) : Report :=
  match i.loadSettings t with
  | .error f => .ofFault "" "" f
  | .ok settings =>
    let document := Location.ofText i.document
    let output := line ("Parsing " ++ document.text ++ "...")
    -- The remarks made up to a fault are printed with it.
    let journal := do generate settings (← t.loadDocument document)
    let errors := remarkLines i.verbose journal.remarks
    match journal.outcome with
    | .error f => .ofFault output errors f
    | .ok g => i.deliver t output errors g

/-- Run the command. A malformed command line prints nothing here and ends with exit code 2. -/
def run (t : Tree) (words : List String) : Report :=
  match Request.ofWords words with
  | .malformed => { exitCode := 2 }
  | .help => { exitCode := 0 }
  | .run i => if i.fits t then i.perform t else { exitCode := 2 }

end ClientGen.Command
