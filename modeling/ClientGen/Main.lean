import ClientGen.Command.Run

/-!
# The command

The outer layer of the command: it gathers the files that a run looks at, runs the command on them and
writes what the run reports.
-/

namespace ClientGen.Main

open ClientGen.Command ClientGen.Files

/-- The system's error number for a directory that is read as a file. -/
def directoryError : UInt32 := 21

/-- What there is at a path. -/
def probe (path : String) : IO (Option Entry) := do
  match ← (IO.FS.readBinFile path).toBaseIO with
  | .ok bytes => return some (.file bytes.toList)
  | .error (.inappropriateType _ code _) =>
    return if code == directoryError then some .directory else none
  | .error _ => return none

/-- Add to a tree what there is on the way to a location. -/
def gatherOne (t : Tree) (l : Location) : IO Tree := do
  let mut tree := t
  let mut here : List String := []
  for name in l.names do
    here := Tree.enter here name
    match ← probe (Location.text ⟨here⟩) with
    | some entry => tree := Dictionary.put tree here entry
    | none => return tree
  return tree

/-- The files that an invocation looks at. The settings are gathered before the files that they name. -/
def gather (i : Invocation) : IO Tree := do
  let named ← (i.locations []).foldlM gatherOne []
  (i.locations named).foldlM gatherOne named

/-- Write a file, with the directories that hold it. -/
def writeOne (names : List String) (text : String) : IO Unit := do
  IO.FS.createDirAll (Location.text ⟨names.dropLast⟩)
  IO.FS.writeFile (Location.text ⟨names⟩) text

/-- How the command is called. -/
def usage : String :=
  "Usage: DOCUMENT -o DIRECTORY [--namespace NAME] [--config FILE] [--tables FILE] " ++
    "[--fallback-resource NAME] [--dry-run] [-v]\n"

/-- Run the command for the words of a command line. -/
def runWords (words : List String) : IO UInt32 := do
  match Request.ofWords words with
  | .help =>
    IO.print usage
    return 0
  | .malformed =>
    IO.eprint usage
    return 2
  | .run i =>
    let report := Command.run (← gather i) words
    for (names, text) in report.written do
      writeOne names text
    IO.print report.output
    IO.eprint report.errors
    if report.crash.isSome then IO.eprint "The document or the files cannot be used.\n"
    if report.exitCode == 2 then IO.eprint usage
    return UInt32.ofNat report.exitCode

end ClientGen.Main

/-- Generate a client from the command line. -/
def main (words : List String) : IO UInt32 := ClientGen.Main.runWords words
