import ClientGen.Enumeration.Registry
import ClientGen.Text.Embedded
import ClientGen.Text.Wrap
import ClientGen.Unit.Import

/-!
# Data transfer object units

A unit with a data class for an object schema: a field for each property, those without a default
first, and a constructor from a decoded response.
-/

namespace ClientGen.Unit

open ClientGen.Api ClientGen.Document ClientGen.Enumeration ClientGen.Naming ClientGen.Schema
  ClientGen.Text

/-- A field of a data class. -/
structure Field where
  name : String
  typeText : String
  optional : Bool
  reader : String
  enum? : Option String

/-- The parts of a data class. -/
structure Dto where
  name : String
  description : Option String
  fields : List Field
  enums : List Imported

namespace Dto

/-- Names that the class body uses itself. -/
def bodyNames : List String := ["raw", "field", "dataclass", "from_dict"]

/-- The alias of an enumeration that has the name of the class. -/
def enumAlias? (enum className : String) : Option String :=
  if enum = className then some (enum ++ "Enum") else none

/-- The name of the enumeration of a property, if its values are texts. -/
def enumOf? (registry : Registry) (schema : Value) : Except Fault (Option String) := do
  match ← enumValues? schema with
  | some values =>
    if values.all Value.isText then return Naming.nonEmpty? (← registry.nameOf? values) else return none
  | none => return none

/-- The expression that reads a property from the decoded data. -/
def readerText (key : String) (enum? : Option String) : String :=
  let got := "data.get(" ++ quoted key ++ ")"
  match enum? with
  | some enum => enum ++ "(data[" ++ quoted key ++ "]) if " ++ got ++ " is not None else None"
  | none => got

/-- The attribute for a property when the names in `used` are taken. -/
def attributeName (used : List String) (key : String) : String :=
  fresh used (underscored (argumentName key)) 0

/-- The field for a property. -/
def fieldOf (className : String) (registry : Registry) (required : List Value) (used : List String)
    (key : String) (schema : Value) : Journal Field := do
  let enum? ← enumOf? registry schema
  let shown := enum?.map fun enum => (enumAlias? enum className).getD enum
  -- A property that is not required may be absent, whatever its schema admits.
  let optional ←
    if required.contains (.str key) then isNullable schema else pure true
  let type ← match shown with
    | some name => pure name
    | none => pure (← kindOf schema).typeText
  return {
    name := attributeName used key
    typeText := if optional then type ++ " | None" else type
    optional
    reader := readerText key shown
    enum? }

/-- Add the field for a property, if its schema is a mapping. The names in use come along. -/
def addField (className : String) (registry : Registry) (required : List Value)
    (state : List Field × List String) (property : Value × Value) :
    Journal (List Field × List String) := do
  let (key, schema) := property
  if !schema.isMapping then return state
  let field ← fieldOf className registry required state.2 (← key.asText) schema
  return (state.1 ++ [field], field.name :: state.2)

/-- The fields for the properties of an object schema, in the order of the properties. -/
def fieldsOf (className : String) (registry : Registry) (schema : Value) : Journal (List Field) := do
  let object ← merge schema
  let required ← (Value.orElse (← object.member "required") (.list [])).keysOf
  let properties ← (Value.orElse (← object.member "properties") .emptyMap).entries
  return (← properties.foldlM (addField className registry required) ([], bodyNames)).1

/-- The fields with those that have no default first. -/
def orderFields (fields : List Field) : List Field :=
  fields.filter (! ·.optional) ++ fields.filter (·.optional)

/-- The data class for an object schema. -/
def ofSchema (name : String) (registry : Registry) (schema : Value) : Journal Dto := do
  let fields ← fieldsOf name registry schema
  let enums := ((fields.filterMap (·.enum?)).eraseDups).mergeSort (· ≤ ·)
  return {
    name
    description := match ← schema.member "description" with
      | some (.str description) => some description
      | _ => none
    fields := orderFields fields
    enums := enums.map fun enum => ⟨enum, enumAlias? enum name⟩ }

/-- The imports of the unit. -/
def imports (settings : Settings) (d : Dto) : List Import :=
  d.enums.map (classImport settings.namespaceName settings.enumFolder)

/-- The documentation of the class. -/
def documentationLines (d : Dto) : List String :=
  match Naming.nonEmpty? d.description with
  | some description =>
    ["    " ++ docQuoted (docText (indentRest "    " (wrap 72 description))), ""]
  | none => []

/-- The declaration of a field. -/
def declaration (f : Field) : String :=
  "    " ++ f.name ++ ": " ++ f.typeText ++ (if f.optional then " = None" else "")

/-- The lines of the unit. -/
def lines (settings : Settings) (d : Dto) : List String :=
  [docQuoted (d.name ++ " data transfer object."), "", lazyAnnotations.text, "",
      (Import.names "dataclasses" [⟨"dataclass", none⟩, ⟨"field", none⟩]).text, anyImport.text]
    ++ (if d.enums.isEmpty then [] else "" :: (d.imports settings).map Import.text)
    ++ ["", "", "@dataclass", "class " ++ d.name ++ ":"]
    ++ d.documentationLines
    ++ d.fields.map declaration
    ++ ["    raw: dict[str, Any] = field(default_factory=dict, repr=False)", "", "    @classmethod",
      "    def from_dict(cls, data: dict[str, Any]) -> " ++ d.name ++ ":", "        return cls("]
    ++ d.fields.map (fun f => "            " ++ f.name ++ "=" ++ f.reader ++ ",")
    ++ ["            raw=dict(data),", "        )"]

/-- The text of the unit. -/
def text (settings : Settings) (d : Dto) : String := unlines (d.lines settings)

/-- The path of the unit. -/
def path (settings : Settings) (name : String) : String := unitPath [settings.dtoFolder] name

end Dto

end ClientGen.Unit
