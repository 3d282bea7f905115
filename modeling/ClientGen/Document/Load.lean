import ClientGen.Document.Expand
import ClientGen.Document.Json.Reader
import ClientGen.Document.Yaml.Reader

/-!
# Loading documents

The text of a document, in JSON or in YAML, as a value of the right outer form: a mapping with a version,
an `info` mapping and, where they are present, mappings for the paths and the components.
-/

namespace ClientGen.Document

/-- The form that a document is written in. -/
inductive Format where
  | json | yaml
  deriving DecidableEq, Repr

/-- The format with the given name. -/
def Format.ofName? : String → Option Format
  | "json" => some .json
  | "yaml" => some .yaml
  | _ => none

/-- The fault of a YAML text that has no value; `defect` is the one to report if the text is not YAML. -/
def Yaml.Failure.fault (defect : Defect) : Yaml.Failure → Fault
  | .malformed => .defect defect
  | .content _ => .misuse .content
  | .word => .misuse .key
  | .noDigits => .misuse .index
  | .noTime => .misuse .member

/-- The defect of a YAML text. Its reason is not told. -/
def malformedYaml : Defect := .malformed "YAML" Yaml.malformedText

/-- The value of a text. A YAML scalar without a value counts as a text that is not YAML. -/
def readValue (format : Format) (text : String) : Except Fault Value :=
  match format with
  | .json => (Json.parse text).mapError fun reason => .defect (.malformed "JSON" reason)
  | .yaml =>
    (Yaml.parse text).mapError fun f =>
      match f with
      | .content _ => .defect malformedYaml
      | f => f.fault malformedYaml

/-- Is the value a mapping wherever it is present? -/
def isMappingOrAbsent (v : Option Value) : Bool := (v.map Value.isMapping).getD true

/-- The document, if it has the outer form of one. -/
def checked (document : Value) : Except Fault Value :=
  if !document.isMapping then .error (.defect .notAMapping)
  else if (document.field? "openapi").isNone then .error (.defect .noVersion)
  else if !((document.field? "info").map Value.isMapping).getD false then .error (.defect .noInfo)
  else if !isMappingOrAbsent (document.field? "paths") then .error (.defect .pathsNotAMapping)
  else if !isMappingOrAbsent (document.field? "components") then
    .error (.defect .componentsNotAMapping)
  else .ok document

/-- The document that a text in the named format stands for. -/
def parse (format text : String) : Except Fault Value :=
  match Format.ofName? format with
  | some format => do checked (← readValue format text)
  | none => .error (.defect (.unknownFormat format))

/-- The document that a text stands for, with its references expanded. -/
def load (format text : String) : Journal Value := do
  expand (← parse format text)

end ClientGen.Document
