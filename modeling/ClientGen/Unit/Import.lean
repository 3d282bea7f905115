/-!
# Imports of a generated unit

The import lines at the top of a unit, and the layout that all units share.
-/

namespace ClientGen.Unit

/-- A name that is imported, under another name if it has an alias. -/
structure Imported where
  name : String
  localName? : Option String := none

/-- The name that the import binds. -/
def Imported.bound (i : Imported) : String := i.localName?.getD i.name

/-- The import as it is written. -/
def Imported.text (i : Imported) : String :=
  match i.localName? with
  | some localName => i.name ++ " as " ++ localName
  | none => i.name

/-- An import line: a module, or names from a module. -/
inductive Import where
  | whole (source : String)
  | names (source : String) (names : List Imported)

/-- The names that an import line binds. -/
def Import.bound : Import → List String
  | whole source => [source]
  | names _ imported => imported.map Imported.bound

/-- An import line as it is written. -/
def Import.text : Import → String
  | whole source => "import " ++ source
  | names source imported =>
    "from " ++ source ++ " import " ++ ", ".intercalate (imported.map Imported.text)

/-- A dotted module name. -/
def dotted (parts : List String) : String := ".".intercalate parts

/-- The import of a class from the module of the same name in a folder. -/
def classImport (root folder : String) (imported : Imported) : Import :=
  .names (dotted [root, folder, imported.name]) [imported]

/-- The import that makes annotations lazy, which every unit starts with. -/
def lazyAnnotations : Import := .names "__future__" [⟨"annotations", none⟩]

/-- The import of the type of all values. -/
def anyImport : Import := .names "typing" [⟨"Any", none⟩]

/-- The import of the HTTP client. -/
def clientImport : Import := .whole "httpx"

/-- Names from the support module of the generated client. -/
def supportImport (root : String) (names : List String) : Import :=
  .names (dotted [root, "support"]) (names.map fun name => ⟨name, none⟩)

/-- Lines, each with its end. -/
def unlines (lines : List String) : String := String.join (lines.map (· ++ "\n"))

/-- Text in documentation quotes. -/
def docQuoted (text : String) : String := "\x22\x22\x22" ++ text ++ "\x22\x22\x22"

/-- The file of a class in a folder. -/
def unitPath (folders : List String) (className : String) : String :=
  "/".intercalate (folders ++ [className ++ ".py"])

end ClientGen.Unit
