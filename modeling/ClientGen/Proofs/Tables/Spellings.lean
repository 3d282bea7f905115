import ClientGen.Proofs.Document.Keys
import ClientGen.Proofs.Outcome
import ClientGen.Tables.Override

/-!
# Overrides of text tables

Two of the lookup tables give a text for a text: the collections of first path segments and
the names of well-known enumerations. An override for one of them can be spelled in three
ways. It lists its entries, it wraps them as `entries`, or it wraps them and says `replace`.
What marks the wrapped spellings is the key `entries`. A list of entries that has this key
itself is taken for a wrapper, and since a text is no list of entries it is refused; such
entries have to be wrapped.

Main results:

* `ofValue_overriding` — an override for a text table changes this table only.
* `overrideWith_spelled` — what the spellings make of a table.
* `ofValue_spelled` — what they make of the default tables, once and once more.
-/

namespace ClientGen.Tables

open ClientGen.Document

-- ---------------------------------------------------------------------------
-- Text tables
-- ---------------------------------------------------------------------------

/-- The tables that give a text for a text. -/
inductive TextTable where
  | pathCollections | enumNames

namespace TextTable

/-- The table's name in an override. -/
def name : TextTable → String
  | pathCollections => "path_collections"
  | enumNames => "enum_parameter_names"

/-- The entries that the generator ships. -/
def standard : TextTable → Dictionary String String
  | pathCollections => Standard.pathCollections
  | enumNames => Standard.enumNames

/-- The default tables with other entries for this one. -/
def holding (entries : Dictionary String String) : TextTable → Tables
  | pathCollections => { pathCollections := entries }
  | enumNames => { enumNames := entries }

/-- The mapping that overrides this table and no other. -/
def overriding (t : TextTable) (override : Value) : Value := .map [(.str t.name, override)]

end TextTable

/-- Without unknown keys and without a version, each table has the override for it. -/
theorem ofValue_of_known {data : Value} (hMapping : data.isMapping = true)
    (hKnown : unknownKeys names data = .ok []) (hVersion : data.field? "version" = none) :
    ofValue data = do
      let pathCollections ←
        overrideWith Standard.pathCollections [] (data.field? "path_collections") extendTexts
      let enumNames ←
        overrideWith Standard.enumNames [] (data.field? "enum_parameter_names") extendTexts
      let sharedConcepts ←
        overrideWith Standard.sharedConcepts [] (data.field? "shared_enum_concepts") extendList
      let envelopeTargets ←
        overrideWith Standard.envelopeTargets [] (data.field? "response_property_dtos") extendTargets
      let verbs ← overrideWith Standard.verbs [] (data.field? "verb_prefixes") extendList
      return { pathCollections, enumNames, sharedConcepts, envelopeTargets, verbs } := by
  have hSupported : ¬ (Value.int tablesVersion != .int tablesVersion) = true := by decide +kernel
  rw [ofValue, hKnown, ok_bind, Value.member_of_isMapping hMapping, ok_bind, hVersion, Option.getD_none,
    if_neg hSupported]
  rfl

/-- An override for a text table changes this table only. -/
theorem ofValue_overriding (t : TextTable) (override : Value) :
    ofValue (t.overriding override) =
      (overrideWith t.standard [] (some override) extendTexts).map fun table => t.holding table := by
  have hField : ∀ name, (t.overriding override).field? name =
      if t.name = name then some override else none := by
    intro name
    simp [TextTable.overriding, Value.field?, Dictionary.get?]
  have hKnown : unknownKeys names (t.overriding override) = .ok [] := by
    cases t <;> rfl
  have hVersion : (t.overriding override).field? "version" = none := by
    rw [hField, if_neg (by cases t <;> decide)]
  rw [ofValue_of_known rfl hKnown hVersion]
  simp only [hField]
  cases t with
  | pathCollections =>
    simp only [TextTable.name]
    cases overrideWith Standard.pathCollections [] (some override) extendTexts with
    | ok table => rfl
    | error fault => rfl
  | enumNames =>
    simp only [TextTable.name]
    cases overrideWith Standard.enumNames [] (some override) extendTexts with
    | ok table => rfl
    | error fault => rfl

-- ---------------------------------------------------------------------------
-- Spellings
-- ---------------------------------------------------------------------------

/-- Entries as a mapping of a document. -/
def mappingOf (entries : Dictionary String String) : Value :=
  .map (entries.map fun e => (.str e.1, .str e.2))

/-- The ways to spell an override. -/
inductive Spelling where
  | listed | wrapped | replacing

namespace Spelling

/-- The override for entries. -/
def override (entries : Dictionary String String) : Spelling → Value
  | listed => mappingOf entries
  | wrapped => .map [(.str "entries", mappingOf entries)]
  | replacing => .map [(.str "replace", .bool true), (.str "entries", mappingOf entries)]

/-- What it makes of a table. -/
def applied (table entries : Dictionary String String) : Spelling → Dictionary String String
  | listed => Dictionary.overlay table entries
  | wrapped => Dictionary.overlay table entries
  | replacing => entries

/-- Entries that are listed must not have the key of wrappers. -/
def Admits (entries : Dictionary String String) (s : Spelling) : Prop :=
  s = listed → "entries" ∉ entries.keys

end Spelling

section Spelled

variable {table entries : Dictionary String String}

/-- The texts of entries are written over a table as they are. -/
theorem extendTexts_mappingOf :
    extendTexts table (mappingOf entries) = .ok (Dictionary.overlay table entries) := by
  rw [mappingOf, extendTexts, List.map_map]
  congr 2
  exact List.map_id entries

/-- A key of the mapping has the text of the entry. -/
theorem field?_mappingOf (key : String) :
    (mappingOf entries).field? key = (Dictionary.get? entries key).map .str := by
  rw [mappingOf, Value.field?]
  induction entries with
  | nil => rfl
  | cons e rest ih =>
    obtain ⟨k, v⟩ := e
    rw [List.map_cons, Dictionary.get?, Dictionary.get?, ih]
    by_cases hKey : k = key
    · rw [if_pos (by simpa using hKey), if_pos (by simpa using hKey)]
      rfl
    · rw [if_neg (by simpa using hKey), if_neg (by simpa using hKey)]

/-- What an override holds is written over the table, or over none. -/
theorem overrideWith_map {es : Entries} {given : Value} {replace : Bool}
    (h : unwrap (.map es) = (given, replace)) :
    overrideWith table [] (some (.map es)) extendTexts =
      extendTexts (if replace then [] else table) given := by
  rw [overrideWith, h]
  simp

/-- What an override makes of a table, unless it is taken for another one. -/
theorem overrideWith_spelled (s : Spelling) (hAdmits : s.Admits entries)
    (hDistinct : entries.Distinct) :
    overrideWith table [] (some (s.override entries)) extendTexts =
      .ok (s.applied table entries) := by
  cases s with
  | listed =>
    have hNoMark : (mappingOf entries).field? "entries" = none := by
      rw [field?_mappingOf, Option.map_eq_none_iff, Dictionary.get?_eq_none_iff]
      intro e he
      rw [beq_eq_false_iff_ne]
      rintro hKey
      exact hAdmits rfl (hKey ▸ List.mem_map_of_mem he)
    have hUnwrap : unwrap (mappingOf entries) = (mappingOf entries, false) := by
      rw [unwrap, hNoMark]
    exact (overrideWith_map hUnwrap).trans extendTexts_mappingOf
  | wrapped =>
    have hUnwrap : unwrap (Spelling.wrapped.override entries) = (mappingOf entries, false) := by
      simp [Spelling.override, unwrap, Value.field?, Dictionary.get?]
    exact (overrideWith_map hUnwrap).trans extendTexts_mappingOf
  | replacing =>
    have hUnwrap : unwrap (Spelling.replacing.override entries) = (mappingOf entries, true) := by
      simp [Spelling.override, unwrap, Value.field?, Dictionary.get?, Value.isTruthy]
    refine (overrideWith_map hUnwrap).trans (extendTexts_mappingOf.trans ?_)
    exact congrArg Except.ok (Dictionary.ofEntries_eq_self hDistinct)

/-- Listed entries with the key of wrappers are no override. -/
theorem overrideWith_mistaken (h : "entries" ∈ entries.keys) :
    overrideWith table [] (some (mappingOf entries)) extendTexts =
      .error (.defect .tableNotAMapping) := by
  obtain ⟨text, hText⟩ := Dictionary.mem_keys_iff.mp h
  have hUnwrap : ∃ replace, unwrap (mappingOf entries) = (.str text, replace) := by
    rw [unwrap, field?_mappingOf, hText]
    exact ⟨_, rfl⟩
  obtain ⟨_, hUnwrap⟩ := hUnwrap
  exact overrideWith_map hUnwrap

/-- Once an override was applied, applying it again changes nothing. -/
theorem applied_applied (s : Spelling) (hDistinct : entries.Distinct) :
    s.applied (s.applied table entries) entries = s.applied table entries := by
  have hThere : ∀ e ∈ entries, Dictionary.get? (Dictionary.overlay table entries) e.1 = some e.2 := by
    intro e he
    rw [Dictionary.get?_overlay_of_distinct hDistinct, Dictionary.get?_of_mem hDistinct he BEq.rfl,
      Option.some_or]
  cases s with
  | listed => exact Dictionary.overlay_eq_self hThere
  | wrapped => exact Dictionary.overlay_eq_self hThere
  | replacing => rfl

end Spelled

-- ---------------------------------------------------------------------------
-- The default tables overridden
-- ---------------------------------------------------------------------------

/-- **Overrides mean what they list.** Entries that override a text table are written over what the
generator ships, or replace it, whichever way this is said; all other tables stay as shipped,
and applying the override once more changes nothing. Written over it, the shipped keys keep
their places and the new ones follow in order, and a key has the text that is listed for it
if there is one. Only entries that have the key of wrappers cannot be listed without one. -/
theorem ofValue_spelled (t : TextTable) {entries : Dictionary String String}
    (hDistinct : entries.Distinct) :
    (∀ s : Spelling, s.Admits entries →
        ofValue (t.overriding (s.override entries)) =
            .ok (t.holding (s.applied t.standard entries)) ∧
          overrideWith (s.applied t.standard entries) [] (some (s.override entries)) extendTexts =
            .ok (s.applied t.standard entries)) ∧
      ("entries" ∈ entries.keys → ofValue (t.overriding (mappingOf entries)) =
        .error (.defect .tableNotAMapping)) ∧
      (Dictionary.overlay t.standard entries).keys =
        t.standard.keys ++ entries.keys.filter (· ∉ t.standard.keys) ∧
      ∀ key, Dictionary.get? (Dictionary.overlay t.standard entries) key =
        (Dictionary.get? entries key).or (Dictionary.get? t.standard key) := by
  refine ⟨?_, ?_, Dictionary.keys_overlay_of_distinct hDistinct,
    Dictionary.get?_overlay_of_distinct hDistinct⟩
  · intro s hAdmits
    rw [ofValue_overriding, overrideWith_spelled s hAdmits hDistinct,
      overrideWith_spelled s hAdmits hDistinct, applied_applied s hDistinct]
    exact ⟨rfl, rfl⟩
  · intro hMark
    rw [ofValue_overriding, overrideWith_mistaken hMark]
    rfl

/-- A shipped collection under another name, and one for a new segment. -/
def zonesAndWidgets : Dictionary String String := [("dns", "Zones"), ("widgets", "Gizmos")]

theorem ofValue_zonesAndWidgets :
    zonesAndWidgets.Distinct ∧ Spelling.listed.Admits zonesAndWidgets ∧
      ofValue (TextTable.pathCollections.overriding (mappingOf zonesAndWidgets)) =
        .ok { pathCollections := Dictionary.overlay Standard.pathCollections zonesAndWidgets } ∧
      (Dictionary.overlay Standard.pathCollections zonesAndWidgets).keys =
        Standard.pathCollections.keys ++ ["widgets"] := by
  have hDistinct : zonesAndWidgets.Distinct := by decide
  have hAdmits : Spelling.listed.Admits zonesAndWidgets := fun _ => by decide
  obtain ⟨hSpelled, -, hKeys, -⟩ := ofValue_spelled .pathCollections hDistinct
  refine ⟨hDistinct, hAdmits, (hSpelled .listed hAdmits).1, hKeys.trans ?_⟩
  decide

/-- A collection for the segment that wrappers are marked by cannot be listed: its text is taken for
the entries. Wrapped, it is added. -/
theorem ofValue_listed_entries :
    Dictionary.Distinct [("entries", "Entries")] ∧
      ofValue (TextTable.pathCollections.overriding (mappingOf [("entries", "Entries")])) ≠
        .ok { pathCollections :=
          Dictionary.overlay Standard.pathCollections [("entries", "Entries")] } ∧
      ofValue (TextTable.pathCollections.overriding
          (Spelling.wrapped.override [("entries", "Entries")])) =
        .ok { pathCollections :=
          Dictionary.overlay Standard.pathCollections [("entries", "Entries")] } := by
  refine ⟨by decide, ?_, ?_⟩
  · rw [ofValue_overriding, overrideWith_mistaken (by decide)]
    exact nofun
  · rw [ofValue_overriding, overrideWith_spelled .wrapped nofun (by decide)]
    rfl

end ClientGen.Tables
