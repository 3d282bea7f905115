import ClientGen.Api.Slot
import ClientGen.Tables.Override

/-!
# Settings

What a run can be told besides its document: where the generated code lives, which parameters to leave
out, and the lookup tables to use.
-/

namespace ClientGen

open ClientGen.Api ClientGen.Document

/-- The settings of a run. -/
structure Settings where
  namespaceName : String := "Sdk"
  requestFolder : String := "Requests"
  resourceFolder : String := "Resource"
  dtoFolder : String := "Dto"
  enumFolder : String := "Enums"
  fallbackResource : String := "Resource"
  ignoredBody : List String := []
  ignoredQuery : List String := []
  ignoredHeader : List String := []
  tables : Tables := {}

namespace Settings

/-- The names that are left out of a slot. No path parameter can be left out. -/
def ignored (s : Settings) : Slot → List String
  | .body => s.ignoredBody
  | .query => s.ignoredQuery
  | .header => s.ignoredHeader
  | .path => []

/-- Is a parameter of the slot left out? -/
def ignores (s : Settings) (slot : Slot) (name : Value) : Bool := (s.ignored slot).any name.isStr

/-- The keys of the settings. -/
def keys : List String := [
  "namespace", "request_namespace_suffix", "resource_namespace_suffix", "dto_namespace_suffix",
  "enum_namespace_suffix", "fallback_resource_name", "ignored_body_params", "ignored_query_params",
  "ignored_header_params", "tables"]

/-- Set what a key with a text stands for. -/
def setText (s : Settings) (key text : String) : Settings :=
  match key with
  | "namespace" => { s with namespaceName := text }
  | "request_namespace_suffix" => { s with requestFolder := text }
  | "resource_namespace_suffix" => { s with resourceFolder := text }
  | "dto_namespace_suffix" => { s with dtoFolder := text }
  | "enum_namespace_suffix" => { s with enumFolder := text }
  | "fallback_resource_name" => { s with fallbackResource := text }
  | _ => s

/-- Set what a key with a list of names stands for. -/
def setNames (s : Settings) (key : String) (names : List String) : Settings :=
  match key with
  | "ignored_body_params" => { s with ignoredBody := names }
  | "ignored_query_params" => { s with ignoredQuery := names }
  | "ignored_header_params" => { s with ignoredHeader := names }
  | _ => s

/-- Take in one entry. Tables are given in place, or by the path of a file that `readTables` reads. -/
def set (readTables : String → Except Fault Tables) (s : Settings) (key : String) (value : Value) :
    Except Fault Settings :=
  if key.startsWith "ignored_" then
    match value with
    | .list names => .ok (s.setNames key (names.map Value.display))
    | _ => .error (.defect (.settingNotAList key))
  else if key = "tables" then do
    let tables ← if value.isMapping then Tables.ofValue value else readTables value.display
    return { s with tables }
  else
    match value with
    | .str "" => .error (.defect (.settingNotText key))
    | .str text => .ok (s.setText key text)
    | _ => .error (.defect (.settingNotText key))

/-- The settings that a mapping describes; what it leaves out has its default. -/
def ofValue (readTables : String → Except Fault Tables) (data : Value) : Except Fault Settings := do
  let unknown ← Tables.unknownKeys keys data
  if !unknown.isEmpty then throw (.defect (.unknownSettings (← Tables.sortedTexts unknown)))
  (← data.entries).foldlM (fun s e => s.set readTables e.1.display e.2) {}

end Settings

end ClientGen
