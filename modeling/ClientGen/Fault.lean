import ClientGen.Api.Address

/-!
# Faults

Why a run can fail. A `Defect` is a fault of an input that the program checks for and words; the other
faults are references that lead nowhere, enumerations that were never collected, and values that are
used as something they are not.
-/

namespace ClientGen

open ClientGen.Document ClientGen.Text

/-- A fault in the form of a document, of the lookup tables or of the settings. -/
inductive Defect where
  | unreadable (path reason : String)
  | unknownFormat (format : String)
  | malformed (format detail : String)
  | notAMapping
  | noVersion
  | noInfo
  | pathsNotAMapping
  | componentsNotAMapping
  | parameterShape (location : String)
  | parametersNotAList (label : String)
  | unsupportedMethod (label : String)
  | pathItemNotAMapping (path : Value)
  | operationNotAMapping (label : String)
  | unknownTables (names : List String)
  | tablesVersion (version : Value)
  | tableNotAMapping
  | tableNotAList
  | responseTableNotAMapping
  | responseTarget (property : Value)
  | tablesUnreadable (path reason : String)
  | tablesNotAMapping (path : String)
  | unknownSettings (names : List String)
  | settingNotAList (key : String)
  | settingNotText (key : String)
  | settingsUnreadable (path reason : String)
  | settingsNotAMapping (path : String)

/-- The version of the lookup tables that is understood. -/
def tablesVersion : Int := 1

/-- The wording of a defect. -/
def Defect.message : Defect → String
  | unreadable path reason => s!"Cannot read {path}: {reason}"
  | unknownFormat format => s!"Unknown document format {quoted format}"
  | malformed format detail => s!"Invalid {format} document: {detail}"
  | notAMapping => "OpenAPI document must be a mapping at the top level"
  | noVersion => "OpenAPI document is missing the 'openapi' version field"
  | noInfo => "OpenAPI document is missing the 'info' object"
  | pathsNotAMapping => "'paths' must be a mapping"
  | componentsNotAMapping => "'components' must be a mapping"
  | parameterShape location => s!"{location}: parameter must be an object with 'name' and 'in'"
  | parametersNotAList label => s!"{label}: 'parameters' must be a list"
  | unsupportedMethod label => s!"{label}: unsupported HTTP method"
  | pathItemNotAMapping path => s!"Path item {path.literal} must be a mapping"
  | operationNotAMapping label => s!"{label}: operation must be a mapping"
  | unknownTables names => "Unknown lookup table(s): " ++ ", ".intercalate names
  | tablesVersion version =>
    s!"Unsupported lookup table version {version.literal} (expected {ClientGen.tablesVersion})"
  | tableNotAMapping => "Lookup table override must be a mapping"
  | tableNotAList => "Lookup table override must be a list"
  | responseTableNotAMapping => "response_property_dtos override must be a mapping"
  | responseTarget property => s!"Invalid response DTO mapping for {property.literal}"
  | tablesUnreadable path reason => s!"Cannot read lookup tables from {path}: {reason}"
  | tablesNotAMapping path => s!"Lookup tables in {path} must be a mapping"
  | unknownSettings names => "Unknown config key(s): " ++ ", ".intercalate names
  | settingNotAList key => s!"Config key {quoted key} must be a list of names"
  | settingNotText key => s!"Config key {quoted key} must be a non-empty string"
  | settingsUnreadable path reason => s!"Cannot read config {path}: {reason}"
  | settingsNotAMapping path => s!"Config {path} must be a mapping"

/-- A value used as something it is not. -/
inductive Misuse where
  /-- an operation on a value of the wrong kind -/
  | kind
  /-- a member of a value that is no mapping -/
  | member
  /-- a placeholder that no argument belongs to, or a word without a meaning -/
  | key
  /-- items that are no pairs, or a text that is no number or date -/
  | content
  /-- a character of an empty text -/
  | index
  /-- bytes that are no text -/
  | encoding
  deriving DecidableEq, Repr

/-- Why a run failed. -/
inductive Fault where
  | defect (d : Defect)
  | unresolved (reference location : String)
  | uncollected (address : Api.Address)
  | misuse (m : Misuse)

/-- The wording of a fault. Misuse has none. -/
def Fault.message? : Fault → Option String
  | defect d => some d.message
  | unresolved reference location =>
    let place := if location = "" then "" else s!" at {location}"
    some s!"Cannot resolve reference {quoted reference}{place}"
  | uncollected address => some s!"No enum collected for parameter {address.text}"
  | misuse _ => none

end ClientGen
