import ClientGen.Proofs.Unit.DataFields
import Mathlib.Data.List.Nodup

/-!
# Names that the body of a data class looks up

The body of a class is run line by line, and a name is looked up among those that the lines
before it have bound. A field with a default binds its name, to nothing, before the field
for the decoded data and the constructor are defined. What these two need is looked up behind the
fields: if a field has such a name, it is found there instead.

The fields keep clear of four names (`Dto.bodyNames`). This module reads off the body which
names it looks up or binds behind the fields (`reliedOn`), and says which fields meet one of them: the
decorator of the constructor and the maker of the decoded data are not among the four.

Main results:

* `bodyOf_suffix` — the statements are what is written for a data class.
* `attributeName_eq_iff` — when an attribute has a certain free name.
* `mem_hidden_bodyOf` — which names fields hide.
* `hidden_of_ofSchema` — when they do, for every schema.
-/

namespace ClientGen.Unit

open ClientGen.Document ClientGen.Document.Value ClientGen.Enumeration ClientGen.Naming
  ClientGen.Schema

-- ---------------------------------------------------------------------------
-- Statements of a class body
-- ---------------------------------------------------------------------------

/-- What a call gets: what a name stands for, or a constant. -/
inductive Passed where
  | name (word : String)
  | constant (word : String)

/-- It as it is written. -/
def Passed.text : Passed → String
  | name word => word
  | constant word => word

/-- The names that are looked up for it. -/
def Passed.lookups : Passed → List String
  | name word => [word]
  | constant _ => []

/-- A call of a function with arguments by name. -/
structure Call where
  function : String
  arguments : List (String × Passed)

namespace Call

/-- The call as it is written. -/
def text (c : Call) : String :=
  c.function ++ "(" ++ ", ".intercalate (c.arguments.map fun a => a.1 ++ "=" ++ a.2.text) ++ ")"

/-- The names that are looked up for it. -/
def lookups (c : Call) : List String := c.function :: c.arguments.flatMap (·.2.lookups)

end Call

/-- A statement of a class body. Types are not evaluated, nor is the inside of a method. -/
inductive Statement where
  /-- a field without a default -/
  | declare (name type : String)
  /-- a field with nothing for a default -/
  | absent (name type : String)
  /-- a field that is made by a call -/
  | made (name type : String) (call : Call)
  /-- a method behind a decorator -/
  | method (decorator name signature : String) (inside : List String)

namespace Statement

/-- The statement as it is written. -/
def lines : Statement → List String
  | declare name type => ["    " ++ name ++ ": " ++ type]
  | absent name type => ["    " ++ name ++ ": " ++ type ++ " = None"]
  | made name type call => ["    " ++ name ++ ": " ++ type ++ " = " ++ call.text]
  | method decorator name signature inside =>
    ["", "    @" ++ decorator, "    def " ++ name ++ signature] ++ inside

/-- The names that it looks up. -/
def lookups : Statement → List String
  | declare _ _ => []
  | absent _ _ => []
  | made _ _ call => call.lookups
  | method decorator _ _ _ => [decorator]

/-- The names that it binds. -/
def binds : Statement → List String
  | declare _ _ => []
  | absent name _ => [name]
  | made name _ _ => [name]
  | method _ name _ _ => [name]

end Statement

/-- The names that statements look up and find among those that are bound, which become more on the
way. -/
def hiddenFrom (bound : List String) : List Statement → List String
  | [] => []
  | s :: rest => s.lookups.filter bound.contains ++ hiddenFrom (s.binds ++ bound) rest

/-- The names that a statement looks up and finds bound by the body itself, by a statement before it. -/
def hidden (body : List Statement) : List String := hiddenFrom [] body

theorem hiddenFrom_append {statements : List Statement} (hNone : ∀ s ∈ statements, s.lookups = [])
    (bound : List String) (rest : List Statement) :
    hiddenFrom bound (statements ++ rest) =
      hiddenFrom (statements.reverse.flatMap Statement.binds ++ bound) rest := by
  induction statements generalizing bound with
  | nil => rfl
  | cons s statements ih =>
    obtain ⟨hHead, hTail⟩ := List.forall_mem_cons.mp hNone
    rw [List.cons_append, hiddenFrom, hHead, List.filter_nil, List.nil_append, ih hTail,
      List.reverse_cons, List.flatMap_append, List.append_assoc, List.flatMap_singleton]

-- ---------------------------------------------------------------------------
-- The body of a data class
-- ---------------------------------------------------------------------------

/-- The statement for a field. -/
def fieldStatement (f : Field) : Statement :=
  if f.optional then .absent f.name f.typeText else .declare f.name f.typeText

/-- The field for the decoded data. -/
def rawStatement : Statement :=
  .made "raw" "dict[str, Any]" ⟨"field", [("default_factory", .name "dict"), ("repr", .constant "False")]⟩

/-- The constructor from decoded data. -/
def constructorStatement (d : Dto) : Statement :=
  .method "classmethod" "from_dict" ("(cls, data: dict[str, Any]) -> " ++ d.name ++ ":")
    (["        return cls("] ++ d.fields.map (fun f => "            " ++ f.name ++ "=" ++ f.reader ++ ",")
      ++ ["            raw=dict(data),", "        )"])

/-- The statements of a data class. -/
def bodyOf (d : Dto) : List Statement :=
  d.fields.map fieldStatement ++ [rawStatement, constructorStatement d]

theorem lines_fieldStatement (f : Field) : (fieldStatement f).lines = [Dto.declaration f] := by
  unfold fieldStatement Dto.declaration
  split
  · rfl
  · rw [String.append_empty]
    rfl

theorem lines_rawStatement :
    rawStatement.lines = ["    raw: dict[str, Any] = field(default_factory=dict, repr=False)"] := by
  decide +kernel

theorem lines_constructorStatement (d : Dto) :
    (constructorStatement d).lines =
      ["", "    @classmethod", "    def from_dict(cls, data: dict[str, Any]) -> " ++ d.name ++ ":",
        "        return cls("] ++ d.fields.map (fun f => "            " ++ f.name ++ "=" ++ f.reader ++ ",")
          ++ ["            raw=dict(data),", "        )"] := by
  have hDecorator : "    @" ++ "classmethod" = "    @classmethod" := by decide +kernel
  have hHead : "    def " ++ "from_dict" ++ "(cls, data: dict[str, Any]) -> " =
      "    def from_dict(cls, data: dict[str, Any]) -> " := by decide +kernel
  rw [constructorStatement, Statement.lines, hDecorator, ← String.append_assoc,
    ← String.append_assoc, hHead]
  rfl

/-- What is written for a data class ends with its statements. -/
theorem bodyOf_suffix (settings : Settings) (d : Dto) :
    (bodyOf d).flatMap Statement.lines <:+ d.lines settings := by
  have hFields : (d.fields.map fieldStatement).flatMap Statement.lines = d.fields.map Dto.declaration := by
    rw [List.flatMap_map, List.map_eq_flatMap]
    exact List.flatMap_congr fun f _ => lines_fieldStatement f
  unfold bodyOf Dto.lines
  rw [List.flatMap_append, hFields, List.flatMap_cons, lines_rawStatement, List.flatMap_singleton,
    lines_constructorStatement]
  simp only [List.append_assoc]
  -- imports and documentation come first
  iterate 4 refine List.suffix_append_of_suffix ?_
  exact List.suffix_rfl

/-- The names that are looked up or bound behind the fields. -/
def reliedOn (d : Dto) : List String :=
  [rawStatement, constructorStatement d].flatMap fun s => s.lookups ++ s.binds

/-- Those of them that fields do not keep clear of. -/
def unguarded : List String := ["dict", "classmethod"]

theorem mem_unguarded_iff {d : Dto} {name : String} :
    name ∈ unguarded ↔ name ∈ reliedOn d ∧ name ∉ Dto.bodyNames := by
  have hAll : reliedOn d = ["field", "dict"] ++ ["raw"] ++ (["classmethod"] ++ ["from_dict"]) := rfl
  have hOthers : unguarded = (reliedOn d).filter fun name => !Dto.bodyNames.contains name := by
    rw [hAll]
    decide
  rw [hOthers, List.mem_filter, Bool.not_eq_true', ← Bool.not_eq_true, List.contains_iff_mem]

/-- What the fields bind. -/
theorem mem_binds_fields {fields : List Field} {name : String} :
    name ∈ (fields.map fieldStatement).reverse.flatMap Statement.binds ↔
      ∃ f ∈ fields, f.name = name ∧ f.optional = true := by
  have hField : ∀ f, name ∈ (fieldStatement f).binds ↔ f.name = name ∧ f.optional = true := by
    intro f
    unfold fieldStatement
    by_cases hOptional : f.optional = true
    · simp [hOptional, Statement.binds, eq_comm]
    · simp [hOptional, Statement.binds]
  simp only [List.mem_flatMap, List.mem_reverse, List.mem_map, exists_exists_and_eq_and, hField]

/-- **Hidden names.** Fields hide those of the unguarded names that fields with a default have. -/
theorem mem_hidden_bodyOf {d : Dto} (hFree : ∀ f ∈ d.fields, f.name ∉ Dto.bodyNames) {name : String} :
    name ∈ hidden (bodyOf d) ↔
      name ∈ unguarded ∧ ∃ f ∈ d.fields, f.name = name ∧ f.optional = true := by
  have hNone : ∀ s ∈ d.fields.map fieldStatement, s.lookups = [] := by
    intro s hs
    obtain ⟨f, -, rfl⟩ := List.mem_map.mp hs
    unfold fieldStatement
    split
    · rfl
    · rfl
  have hClosing : ∀ bound, hiddenFrom bound [rawStatement, constructorStatement d] =
      ["field", "dict"].filter bound.contains ++ (["classmethod"].filter ("raw" :: bound).contains ++ []) :=
    fun _ => rfl
  have hField : ¬ ∃ f ∈ d.fields, f.name = "field" ∧ f.optional = true := by
    rintro ⟨f, hf, hName, -⟩
    exact hFree f hf (hName ▸ by decide)
  rw [hidden, bodyOf, hiddenFrom_append hNone, List.append_nil, hClosing, unguarded]
  simp only [List.mem_append, List.mem_filter, List.contains_iff_mem, List.mem_cons, List.not_mem_nil,
    or_false, mem_binds_fields]
  constructor
  · rintro (⟨rfl | rfl, hBound⟩ | ⟨rfl, hRaw | hBound⟩)
    · exact absurd hBound hField
    · exact ⟨Or.inl rfl, hBound⟩
    · exact absurd hRaw (by decide)
    · exact ⟨Or.inr rfl, hBound⟩
  · rintro ⟨rfl | rfl, hBound⟩
    · exact Or.inl ⟨Or.inr rfl, hBound⟩
    · exact Or.inr ⟨rfl, Or.inr hBound⟩

-- ---------------------------------------------------------------------------
-- Which fields have a certain name
-- ---------------------------------------------------------------------------

/-- An attribute has a free name that does not end with an underscore just where its key comes out so. -/
theorem attributeName_eq_iff {used : List String} {key name : String} (hFree : name ∉ used)
    (hLast : name.toList.getLast? ≠ some '_') :
    Dto.attributeName used key = name ↔ argumentName key = name := by
  obtain ⟨n, hFirst, hName⟩ : ∃ n, IsFirstFree used.contains (underscored (argumentName key)) 0 n ∧
      Dto.attributeName used key = underscored (argumentName key) n :=
    fresh_isFirstFree fun _ _ _ _ h => underscored_inj h
  have hZero : underscored (argumentName key) 0 = argumentName key := String.append_empty
  rw [hName]
  constructor
  · intro h
    cases n with
    | zero => exact hZero.symm.trans h
    | succ n =>
      refine absurd ?_ hLast
      rw [← h, underscored, String.toList_append, String.toList_ofList, List.replicate_succ',
        ← List.append_assoc, List.getLast?_concat]
  · intro h
    cases n with
    | zero => exact hZero.trans h
    | succ n =>
      have hTaken := hFirst.before 0 (Nat.le_refl 0) (Nat.succ_pos n)
      rw [hZero, h, List.contains_iff_mem] at hTaken
      exact absurd hTaken hFree

/-- Does the property have a field, and does its key come out as the name? -/
def comesOutAs (name : String) (property : Value × Value) : Bool :=
  property.2.isMapping &&
    match property.1 with
    | .str key => argumentName key == name
    | _ => false

theorem comesOutAs_str {name key : String} {schema : Value} (hMapping : schema.isMapping = true) :
    comesOutAs name (.str key, schema) = true ↔ argumentName key = name := by
  rw [comesOutAs, hMapping, Bool.true_and, beq_iff_eq]

section Run

variable {className : String} {registry : Registry} {required : List Value} {name : String}
  (hLast : name.toList.getLast? ≠ some '_')
include hLast

/-- A property adds a free name just where its key comes out so. -/
theorem not_mem_of_addField {state state' : List Field × List String} {property : Value × Value}
    (hFree : name ∉ state.2) (hOther : comesOutAs name property = false)
    (h : (Dto.addField className registry required state property).outcome = .ok state') :
    name ∉ state'.2 := by
  obtain ⟨stated, schema⟩ := property
  rcases addField_cases h with ⟨-, rfl⟩ | ⟨key, field, hMapping, rfl, hField, rfl⟩
  · exact hFree
  · rw [List.mem_cons, not_or]
    refine ⟨?_, hFree⟩
    rintro rfl
    have hKey := (attributeName_eq_iff hFree hLast).mp hField.name.symm
    rw [(comesOutAs_str hMapping).mpr hKey] at hOther
    cases hOther

/-- The first property whose key comes out as a free name has a field of that name. -/
theorem exists_field_of_first {properties : Entries} {state : List Field × List String}
    {property : Value × Value} (hFree : name ∉ Dto.bodyNames)
    (hFirst : properties.find? (comesOutAs name) = some property)
    (h : properties.foldlM (fun state property =>
      (Dto.addField className registry required state property).outcome) ([], Dto.bodyNames) =
        .ok state) :
    ∃ field ∈ state.1, field.name = name ∧ FieldFor className registry required property field := by
  obtain ⟨hHere, before, after, rfl, hBefore⟩ := List.find?_eq_some_iff_append.mp hFirst
  rw [List.foldlM_append] at h
  obtain ⟨reached, hReached, h⟩ := exists_of_bind_ok h
  rw [List.foldlM_cons] at h
  obtain ⟨next, hNext, h⟩ := exists_of_bind_ok h
  have hStill : name ∉ reached.2 := by
    refine foldlM_ok_induction (fun state => name ∉ state.2) hFree ?_ hReached
    intro _ other _ hOther hState hStep
    exact not_mem_of_addField hLast hState (by simpa using hBefore other hOther) hStep
  obtain ⟨fields, hFields, -⟩ := exists_of_addFields h
  rcases addField_cases hNext with ⟨hNone, -⟩ | ⟨key, field, hMapping, hKey, hField, rfl⟩
  · rw [comesOutAs, hNone, Bool.false_and] at hHere
    cases hHere
  · refine ⟨field, ?_, ?_, reached.2, key, hKey, hField⟩
    · rw [hFields]
      simp
    · rw [hField.name, attributeName_eq_iff hStill hLast]
      obtain ⟨stated, schema⟩ := property
      obtain rfl : stated = .str key := hKey
      exact (comesOutAs_str hMapping).mp hHere

/-- If there is no such property, no field has the name. -/
theorem not_mem_of_run {properties : Entries} {state : List Field × List String}
    (hFree : name ∉ Dto.bodyNames) (hNone : properties.find? (comesOutAs name) = none)
    (h : properties.foldlM (fun state property =>
      (Dto.addField className registry required state property).outcome) ([], Dto.bodyNames) =
        .ok state) : name ∉ state.2 := by
  refine foldlM_ok_induction (fun state => name ∉ state.2) hFree ?_ h
  intro _ property _ hProperty hState hStep
  have hElse : comesOutAs name property = false := by
    simpa using List.find?_eq_none.mp hNone property hProperty
  exact not_mem_of_addField hLast hState hElse hStep

/-- **The first property gets the name.** A field has a free name only if it is that of the first property
whose key comes out so. -/
theorem exists_first_of_field {properties : Entries} {state : List Field × List String}
    (hFree : name ∉ Dto.bodyNames)
    (h : properties.foldlM (fun state property =>
      (Dto.addField className registry required state property).outcome) ([], Dto.bodyNames) =
        .ok state) {field : Field} (hField : field ∈ state.1) (hName : field.name = name) :
    ∃ property, properties.find? (comesOutAs name) = some property ∧
      FieldFor className registry required property field := by
  have hNamed := named_of_addFields h
  cases hFound : properties.find? (comesOutAs name) with
  | none =>
    refine absurd ?_ (not_mem_of_run hLast hFree hFound h)
    rw [hNamed.used, List.mem_append, List.mem_reverse]
    exact Or.inl (hName ▸ List.mem_map_of_mem hField)
  | some property =>
    obtain ⟨other, hOther, hOtherName, hFor⟩ := exists_field_of_first hLast hFree hFound h
    have hOne : other = field := List.inj_on_of_nodup_map hNamed.legalNames.distinct hOther hField
      (hOtherName.trans hName.symm)
    exact ⟨property, rfl, hOne ▸ hFor⟩

end Run

/-- What tells whether the field of a property has a default. -/
theorem FieldFor.optional_iff {className : String} {registry : Registry} {required : List Value}
    {property : Value × Value} {field : Field} (h : FieldFor className registry required property field) :
    field.optional = true ↔ required.contains property.1 = false ∨ isNullable property.2 = .ok true := by
  obtain ⟨used, key, hKey, hField⟩ := h
  have hOptional := hField.optional
  rw [← hKey] at hOptional
  cases hRequired : required.contains property.1 with
  | false =>
    rw [hRequired, if_neg Bool.false_ne_true] at hOptional
    simp [← Except.ok.inj hOptional]
  | true =>
    rw [hRequired, if_pos rfl] at hOptional
    simp [hOptional]

/--
**When fields hide names.** The body of every data class is a run of statements, which looks up or binds
five names behind the fields. Of these, fields have none but `dict` and `classmethod`. Some field has
one of the two just where the key of some property that is a mapping comes out as it. Then it is the
field of the first such property, and it hides the name from the statements behind it if and only if
this property is not required or may be null. No other names are hidden.
-/
theorem hidden_of_ofSchema {className : String} {registry : Registry} {schema : Value} {d : Dto}
    (h : (Dto.ofSchema className registry schema).outcome = .ok d) :
    (∀ settings, (bodyOf d).flatMap Statement.lines <:+ d.lines settings) ∧
    ∃ properties required, mergedProperties schema = .ok properties ∧ mergedRequired schema = .ok required ∧
      (∀ field ∈ d.fields, field.name ∈ reliedOn d → field.name ∈ unguarded) ∧
      (∀ name ∈ unguarded, (∃ field ∈ d.fields, field.name = name) ↔
        ∃ property ∈ properties, comesOutAs name property = true) ∧
      ∀ name, name ∈ hidden (bodyOf d) ↔ name ∈ unguarded ∧
        ∃ property, properties.find? (comesOutAs name) = some property ∧
          (required.contains property.1 = false ∨ isNullable property.2 = .ok true) := by
  obtain ⟨fields, -, hFields, -, hOrder, -⟩ := exists_of_ofSchema_ok h
  obtain ⟨properties, required, used, hProperties, hRequired, hRun⟩ := exists_run_of_fieldsOf_ok hFields
  have hPerm : d.fields.Perm fields := hOrder ▸ orderFields_perm fields
  have hLegal := (named_of_addFields hRun).legalNames.perm hPerm
  have hUnguarded : ∀ name ∈ unguarded, name.toList.getLast? ≠ some '_' ∧ name ∉ Dto.bodyNames := by
    decide
  refine ⟨fun settings => bodyOf_suffix settings d, properties, required, hProperties, hRequired,
    ?_, ?_, ?_⟩
  · intro field hField hName
    exact mem_unguarded_iff.mpr ⟨hName, hLegal.free field hField⟩
  · intro name hName
    obtain ⟨hLast, hFree⟩ := hUnguarded name hName
    constructor
    · rintro ⟨field, hField, hSame⟩
      obtain ⟨property, hFound, -⟩ :=
        exists_first_of_field hLast hFree hRun (hPerm.mem_iff.mp hField) hSame
      exact ⟨property, List.mem_of_find?_eq_some hFound, List.find?_some hFound⟩
    · intro hSome
      obtain ⟨property, hFound⟩ := Option.isSome_iff_exists.mp (List.find?_isSome.mpr hSome)
      obtain ⟨field, hField, hSame, -⟩ := exists_field_of_first hLast hFree hFound hRun
      exact ⟨field, hPerm.mem_iff.mpr hField, hSame⟩
  · intro name
    rw [mem_hidden_bodyOf hLegal.free]
    refine and_congr_right fun hName => ?_
    obtain ⟨hLast, hFree⟩ := hUnguarded name hName
    constructor
    · rintro ⟨field, hField, hSame, hOptional⟩
      obtain ⟨property, hFound, hFor⟩ :=
        exists_first_of_field hLast hFree hRun (hPerm.mem_iff.mp hField) hSame
      exact ⟨property, hFound, hFor.optional_iff.mp hOptional⟩
    · rintro ⟨property, hFound, hAbsent⟩
      obtain ⟨field, hField, hSame, hFor⟩ := exists_field_of_first hLast hFree hFound hRun
      exact ⟨field, hPerm.mem_iff.mpr hField, hSame, hFor.optional_iff.mpr hAbsent⟩

-- ---------------------------------------------------------------------------
-- A tool with a hidden decorator
-- ---------------------------------------------------------------------------

/-- The properties of a tool. Their keys come out as the names that fields do not keep clear of. -/
def toolProperties : Entries := [(.str "dict", typed "string"), (.str "classmethod", typed "string")]

/-- A tool. The first of its properties is required. -/
def toolSchema : Value :=
  .map [(.str "properties", .map toolProperties), (.str "required", .list [.str "dict"])]

theorem mergedProperties_toolSchema : mergedProperties toolSchema = .ok toolProperties := by
  apply mergedProperties_of_plain <;> simp [toolSchema, field?, Dictionary.get?]

theorem mergedRequired_toolSchema : mergedRequired toolSchema = .ok [.str "dict"] := by
  have hPlain : toolSchema.field? "allOf" = none := by simp [toolSchema, field?, Dictionary.get?]
  rw [mergedRequired, merge_of_plain rfl hPlain, ok_bind]
  cbv

theorem exists_dto_toolSchema : ∃ d, (Dto.ofSchema "Tool" {} toolSchema).outcome = .ok d := by
  refine exists_ofSchema_ok "Tool" {} (by decide +kernel) rfl ?_
  intro properties h
  rw [mergedProperties_toolSchema] at h
  cases h
  decide +kernel

theorem find?_toolProperties :
    toolProperties.find? (comesOutAs "dict") = some (.str "dict", typed "string") ∧
      toolProperties.find? (comesOutAs "classmethod") = some (.str "classmethod", typed "string") := by
  constructor
  · rw [toolProperties, List.find?_cons_of_pos (by decide +kernel)]
  · rw [toolProperties, List.find?_cons_of_neg (by decide +kernel),
      List.find?_cons_of_pos (by decide +kernel)]

/-- The second property need not be there, so its field binds the name of the decorator to nothing. -/
theorem classmethod_hidden :
    ∃ d, (Dto.ofSchema "Tool" {} toolSchema).outcome = .ok d ∧
      (∃ field ∈ d.fields, field.name = "classmethod") ∧ "classmethod" ∈ hidden (bodyOf d) := by
  obtain ⟨d, h⟩ := exists_dto_toolSchema
  obtain ⟨fields, -, hFields, -, hOrder, -⟩ := exists_of_ofSchema_ok h
  obtain ⟨properties, required, used, hProperties, hRequired, hRun⟩ := exists_run_of_fieldsOf_ok hFields
  cases mergedProperties_toolSchema.symm.trans hProperties
  cases mergedRequired_toolSchema.symm.trans hRequired
  obtain ⟨field, hField, hName, hFor⟩ :=
    exists_field_of_first (by decide) (by decide) find?_toolProperties.2 hRun
  have hOptional : field.optional = true := hFor.optional_iff.mpr (Or.inl (by decide +kernel))
  have hPerm : d.fields.Perm fields := hOrder ▸ orderFields_perm fields
  have hFree := ((named_of_addFields hRun).legalNames.perm hPerm).free
  have hMem : ∃ field ∈ d.fields, field.name = "classmethod" ∧ field.optional = true :=
    ⟨field, hPerm.mem_iff.mpr hField, hName, hOptional⟩
  exact ⟨d, h, ⟨field, hPerm.mem_iff.mpr hField, hName⟩,
    (mem_hidden_bodyOf hFree).mpr ⟨by decide, hMem⟩⟩

/-- Both properties have fields of these names, and only the required one hides nothing. -/
theorem hidden_of_tool :
    ∃ d, (Dto.ofSchema "Tool" {} toolSchema).outcome = .ok d ∧
      (∀ name ∈ unguarded, ∃ field ∈ d.fields, field.name = name) ∧
      ∀ name, name ∈ hidden (bodyOf d) ↔ name = "classmethod" := by
  obtain ⟨d, h⟩ := exists_dto_toolSchema
  obtain ⟨-, properties, required, hProperties, hRequired, -, hNames, hHidden⟩ := hidden_of_ofSchema h
  cases mergedProperties_toolSchema.symm.trans hProperties
  cases mergedRequired_toolSchema.symm.trans hRequired
  obtain ⟨hDict, hClassmethod⟩ := find?_toolProperties
  have hNullable : isNullable (typed "string") = .ok false := by cbv
  refine ⟨d, h, ?_, fun name => ?_⟩
  · intro name hName
    rw [hNames name hName, ← List.find?_isSome]
    rcases List.mem_cons.mp hName with rfl | hName
    · rw [hDict]
      rfl
    · rw [List.mem_singleton.mp hName, hClassmethod]
      rfl
  · rw [hHidden, unguarded]
    constructor
    · rintro ⟨hName, property, hFound, hAbsent⟩
      rcases List.mem_cons.mp hName with rfl | hName
      · cases hDict.symm.trans hFound
        rcases hAbsent with hAbsent | hAbsent
        · exact absurd hAbsent (by decide +kernel)
        · rw [hNullable] at hAbsent
          cases hAbsent
      · exact List.mem_singleton.mp hName
    · rintro rfl
      exact ⟨by decide, _, hClassmethod, Or.inl (by decide +kernel)⟩

end ClientGen.Unit
