import ClientGen.Document.Access
import ClientGen.Document.Order
import ClientGen.Tables.Basic

/-!
# Overriding the lookup tables

A mapping with an entry per table changes the tables that it names. The entry lists additions, or it
wraps them as `entries` and may say `replace` to drop what the table held before.
-/

namespace ClientGen.Tables

open ClientGen.Document

/-- The tables' names in an override. -/
def names : List String := [
  "version", "path_collections", "enum_parameter_names", "shared_enum_concepts",
  "response_property_dtos", "verb_prefixes"]

/-- The entries of an override, and whether they replace the table. -/
def unwrap (override : Value) : Value × Bool :=
  match override.field? "entries" with
  | some entries => (entries, ((override.field? "replace").map Value.isTruthy).getD false)
  | none => (override, false)

/-- The table with the override for it, if there is one. -/
def overrideWith {α : Type} (base empty : α) (override : Option Value)
    (extend : α → Value → Except Fault α) : Except Fault α :=
  match override with
  | none => .ok base
  | some .null => .ok base
  | some given =>
    let (entries, replace) := unwrap given
    extend (if replace then empty else base) entries

/-- Write the entries of a mapping, as texts, over a table of texts. -/
def extendTexts (base : Dictionary String String) (entries : Value) :
    Except Fault (Dictionary String String) :=
  match entries with
  | .map es => .ok (Dictionary.overlay base (es.map fun e => (e.1.display, e.2.display)))
  | _ => .error (.defect .tableNotAMapping)

/-- Add a text at the end of a list unless it is there. -/
def addText (texts : List String) (text : String) : List String :=
  if texts.contains text then texts else texts ++ [text]

/-- Add the items of a list, as texts, to a table without values. -/
def extendList (base : List String) (entries : Value) : Except Fault (List String) :=
  match entries with
  | .list items | .set items => .ok (items.foldl (fun texts v => addText texts v.display) base)
  | .bytes bs => .ok (bs.foldl (fun texts b => addText texts (toString b.toNat)) base)
  | _ => .error (.defect .tableNotAList)

/-- What an entry of the envelope table says: the class of one object, or a mapping with the class as
`dto` and whether there is a list of them as `array`. -/
def envelopeTarget (property target : Value) : Except Fault EnvelopeTarget :=
  match target with
  | .str dto => .ok ⟨dto, false⟩
  | _ =>
    match target.field? "dto" with
    | some dto => .ok ⟨dto.display, ((target.field? "array").map Value.isTruthy).getD false⟩
    | none => .error (.defect (.responseTarget property))

/-- Write the entries of a mapping over the envelope table. -/
def extendTargets (base : Dictionary String EnvelopeTarget) (entries : Value) :
    Except Fault (Dictionary String EnvelopeTarget) :=
  match entries with
  | .map es =>
    es.foldlM (fun table e => do return table.put e.1.display (← envelopeTarget e.1 e.2)) base
  | _ => .error (.defect .responseTableNotAMapping)

/-- The texts of keys in order. Keys without a common order, or that are no texts, are a misuse. -/
def sortedTexts (keys : List Value) : Except Fault (List String) :=
  match Value.sortOn? id keys with
  | some sorted => sorted.mapM Value.asText
  | none => .error (.misuse .kind)

/-- The keys of a mapping that are not among the known ones, each once. -/
def unknownKeys (known : List String) (data : Value) : Except Fault (List Value) := do
  return (← data.keysOf).eraseDups.filter fun k => !known.any k.isStr

/-- The default tables with an override mapping laid over them. -/
def ofValue (data : Value) : Except Fault Tables := do
  let unknown ← unknownKeys names data
  if !unknown.isEmpty then throw (.defect (.unknownTables (← sortedTexts unknown)))
  let version := (← data.member "version").getD (.int tablesVersion)
  if version != .int tablesVersion then throw (.defect (.tablesVersion version))
  return {
    version
    pathCollections :=
      ← overrideWith Standard.pathCollections [] (data.field? "path_collections") extendTexts
    enumNames := ← overrideWith Standard.enumNames [] (data.field? "enum_parameter_names") extendTexts
    sharedConcepts :=
      ← overrideWith Standard.sharedConcepts [] (data.field? "shared_enum_concepts") extendList
    envelopeTargets :=
      ← overrideWith Standard.envelopeTargets [] (data.field? "response_property_dtos") extendTargets
    verbs := ← overrideWith Standard.verbs [] (data.field? "verb_prefixes") extendList }

end ClientGen.Tables
