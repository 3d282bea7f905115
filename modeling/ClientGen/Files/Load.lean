import ClientGen.Document.Load
import ClientGen.Files.Tree
import ClientGen.Settings

/-!
# Loading from files

The document, the lookup tables and the settings of a run, read from the files of a tree. A file that
cannot be read is reported with the reason.
-/

namespace ClientGen.Files

open ClientGen.Document

namespace Tree

/-- The document in a file, with its references expanded. The extension tells JSON from YAML. -/
def loadDocument (t : Tree) (l : Location) : Journal Value := do
  let format := if Text.lower l.extension.toList == ".json".toList then "json" else "yaml"
  match t.readText l with
  | .ok text => load format text
  | .error (.undecodable _) => throw (.misuse .encoding)
  | .error f => throw (.defect (.unreadable l.text (f.message l)))

/-- The value in a file of lookup tables, in JSON or in YAML. -/
def readTableData (t : Tree) (l : Location) : Except Fault Value := do
  let unreadable (reason : String) : Defect := .tablesUnreadable l.text reason
  match t.readText l with
  | .error f => throw (.defect (unreadable (f.message l)))
  | .ok text =>
    if l.extension == ".json" then
      (Json.parse text).mapError fun reason => .defect (unreadable reason)
    else
      (Yaml.parse text).mapError fun f =>
        match f with
        | .content reason => .defect (unreadable reason)
        | f => f.fault (unreadable Yaml.malformedText)

/-- The lookup tables in a file. An empty file changes nothing. -/
def loadTables (t : Tree) (l : Location) : Except Fault Tables := do
  let data ← t.readTableData l
  match data with
  | .null => return {}
  | .map _ => Tables.ofValue data
  | _ => throw (.defect (.tablesNotAMapping l.text))

/-- The settings that a mapping describes. Files that it names are looked up from a directory. -/
def settingsOf (t : Tree) (base : Location) (data : Value) : Except Fault Settings :=
  Settings.ofValue (fun path => t.loadTables (base.join (.ofText path))) data

/-- The value in a file of settings, which is YAML. What counts as false is an empty mapping. -/
def readSettingsData (t : Tree) (l : Location) : Except Fault Value := do
  let unreadable (reason : String) : Defect := .settingsUnreadable l.text reason
  let data ←
    match t.readText l with
    | .error (.undecodable _) => throw (.misuse .encoding)
    | .error f => throw (.defect (unreadable (f.message l)))
    | .ok text => (Yaml.parse text).mapError (·.fault (unreadable Yaml.malformedText))
  let data := Value.orElse (some data) .emptyMap
  if data.isMapping then return data else throw (.defect (.settingsNotAMapping l.text))

/-- The settings in a file. -/
def loadSettings (t : Tree) (l : Location) : Except Fault Settings := do
  t.settingsOf l.parent (← t.readSettingsData l)

end Tree

end ClientGen.Files
