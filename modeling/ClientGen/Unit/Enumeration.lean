import ClientGen.Enumeration.Registry
import ClientGen.Text.Embedded
import ClientGen.Text.Wrap
import ClientGen.Unit.Import

/-!
# Enumeration units
-/

namespace ClientGen.Unit

open ClientGen.Enumeration ClientGen.Text

/-- The parts of an enumeration unit: the class with its members and their values. -/
structure EnumUnit where
  name : String
  description : Option String
  members : List (String × String)

namespace EnumUnit

/-- The unit of an enumeration. -/
def ofDefinition (d : Definition) : Except Fault EnumUnit := do
  return { name := d.name, description := d.description, members := ← Enumeration.members d.values }

/-- The documentation: the description, or the name for want of one. -/
def documentation (u : EnumUnit) : String := (Naming.nonEmpty? u.description).getD u.name

/-- The lines of the unit. -/
def lines (u : EnumUnit) : List String :=
  [docQuoted (docText (wrap 76 u.documentation)), "", lazyAnnotations.text, "",
      (Import.names "enum" [⟨"Enum", none⟩]).text, "", "", "class " ++ u.name ++ "(str, Enum):"]
    ++ u.members.map fun (name, value) => "    " ++ name ++ " = " ++ quoted value

/-- The text of the unit. -/
def text (u : EnumUnit) : String := unlines u.lines

/-- The path of the unit. -/
def path (settings : Settings) (name : String) : String := unitPath [settings.enumFolder] name

end EnumUnit

end ClientGen.Unit
