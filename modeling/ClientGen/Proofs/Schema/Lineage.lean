import ClientGen.Proofs.Document.Overlays
import ClientGen.Proofs.Document.References
import ClientGen.Proofs.Schema.Composition

/-!
# Compositions as lineages

The members of a composed schema can be compositions themselves, to any depth. Merging
collapses them from the inside: a member is merged before it is laid over what came before
it. This module says the same from the outside. The lineage of a schema lists it and the
members at any depth, each before its own members, and merging lays over each other what
the schemas of the lineage state themselves. So how the members are nested does not matter,
only the order in which they come.

The proof goes along the recursion of merging. What carries it is that overlays can be
grouped at will, which needs that property names are keys of a mapping.

Main results:

* `mergeMembers_lineages` — laying members over what a lineage states continues the lineage.
* `Regroups.mergesAlike` — nesting members in another way leaves what is merged.
* `merge_lineage` — merging is one run along the lineage.
-/

namespace ClientGen.Schema

open ClientGen.Document ClientGen.Document.Value

-- ---------------------------------------------------------------------------
-- Lineages
-- ---------------------------------------------------------------------------

mutual

/-- The schema and the members of its composition at any depth, each before its own members. -/
def lineage (schema : Value) : List Value :=
  match _allOf : schema.field? "allOf" with
  | some (.list members) => schema :: lineages members
  | _ => [schema]
termination_by (schema.depth, 0)
decreasing_by
  have := Value.field?_depth _allOf
  simp only [Value.depth] at this
  simp only [Prod.lex_def]
  omega

/-- The lineages of members, one after the other. What is no mapping is passed over. -/
def lineages (members : List Value) : List Value :=
  match members with
  | [] => []
  | member :: rest => if member.isMapping then lineage member ++ lineages rest else lineages rest
termination_by (Value.itemsDepth members, members.length + 1)
decreasing_by all_goals simp only [Value.itemsDepth, Prod.lex_def, List.length_cons]; omega

end

/-- The properties that a schema states itself. -/
def statedProperties (schema : Value) : Entries :=
  match schema.field? "properties" with
  | some (.map entries) => entries
  | _ => []

/-- The required names that a schema states itself. -/
def statedRequired (schema : Value) : List Value :=
  match schema.field? "required" with
  | some (.list names) => names
  | _ => []

/-- What the schema states itself is of the kind that merging asks for. -/
structure Mergeable (schema : Value) : Prop where
  properties  : ∀ v, schema.field? "properties" = some v → ∃ entries, v = .map entries
  required    : ∀ v, schema.field? "required" = some v → ∃ names, v = .list names
  composition : ∀ v, schema.field? "allOf" = some v → ∃ members, v = .list members

instance (v : Value) : Decidable (∃ entries, v = .map entries) :=
  decidable_of_iff (v.isMapping = true) (by cases v <;> simp [isMapping])

instance (v : Value) : Decidable (∃ items, v = .list items) :=
  match v with
  | .list items => isTrue ⟨items, rfl⟩
  | .map _ | .set _ | .null | .bool _ | .int _ | .float _ | .str _ | .date _ | .moment _ | .bytes _ =>
    isFalse nofun

instance (schema : Value) : Decidable (Mergeable schema) :=
  decidable_of_iff
    ((∀ v ∈ schema.field? "properties", ∃ entries, v = .map entries) ∧
      (∀ v ∈ schema.field? "required", ∃ names, v = .list names) ∧
      ∀ v ∈ schema.field? "allOf", ∃ members, v = .list members)
    ⟨fun ⟨h, h', h''⟩ => ⟨h, h', h''⟩, fun ⟨h, h', h''⟩ => ⟨h, h', h''⟩⟩

theorem lineage_of_members {schema : Value} {members : List Value}
    (h : schema.field? "allOf" = some (.list members)) :
    lineage schema = schema :: lineages members := by
  rw [lineage]
  split
  · rename_i hMembers
    rw [h] at hMembers
    cases hMembers
    rfl
  · rename_i hOther
    exact absurd h (hOther members)

theorem lineage_of_plain {schema : Value} (h : schema.field? "allOf" = none) :
    lineage schema = [schema] := by
  rw [lineage]
  split
  · rename_i hMembers
    rw [h] at hMembers
    cases hMembers
  · rfl

theorem mem_lineage_self (schema : Value) : schema ∈ lineage schema := by
  rw [lineage]
  split <;> exact List.mem_cons_self

theorem lineages_cons_of_mapping {member : Value} (h : member.isMapping = true) (rest : List Value) :
    lineages (member :: rest) = lineage member ++ lineages rest := by
  rw [lineages, if_pos h]

theorem lineages_append (before after : List Value) :
    lineages (before ++ after) = lineages before ++ lineages after := by
  induction before with
  | nil =>
    rw [lineages]
    rfl
  | cons member rest ih =>
    rw [List.cons_append, lineages, lineages]
    split
    · rw [ih, List.append_assoc]
    · exact ih

mutual

/-- The schemas of a lineage are parts of its first one. -/
theorem within_of_mem_lineage (schema : Value) : ∀ s ∈ lineage schema, Within s schema := by
  rw [lineage]
  split
  · rename_i members hMembers
    have hDeeper := Value.field?_depth hMembers
    obtain ⟨entries, rfl, e, he, hValue⟩ : ∃ entries : Entries, schema = .map entries ∧
        ∃ e ∈ entries, e.2 = .list members := by
      cases schema with
      | map entries =>
        obtain ⟨e, he, -, hValue⟩ := Dictionary.exists_of_get? hMembers
        exact ⟨entries, rfl, e, he, hValue⟩
      | _ => cases hMembers
    intro s hs
    rcases List.mem_cons.mp hs with rfl | hs
    · exact .refl _
    · obtain ⟨member, hMember, hWithin⟩ := within_of_mem_lineages members s hs
      exact .entry he (hValue ▸ .item hMember hWithin)
  · intro s hs
    rw [List.mem_singleton.mp hs]
    exact .refl _
termination_by (schema.depth, 0)
decreasing_by
  simp only [Prod.lex_def, Value.depth] at *
  omega

theorem within_of_mem_lineages (members : List Value) :
    ∀ s ∈ lineages members, ∃ member ∈ members, Within s member := by
  match members with
  | [] =>
    rw [lineages]
    simp
  | member :: rest =>
    intro s hs
    have hRest : s ∈ lineages rest → ∃ m ∈ member :: rest, Within s m := by
      intro hs
      obtain ⟨m, hm, hWithin⟩ := within_of_mem_lineages rest s hs
      exact ⟨m, List.mem_cons_of_mem _ hm, hWithin⟩
    rw [lineages] at hs
    split at hs
    · rcases List.mem_append.mp hs with hs | hs
      · exact ⟨member, List.mem_cons_self, within_of_mem_lineage member s hs⟩
      · exact hRest hs
    · exact hRest hs
termination_by (Value.itemsDepth members, members.length + 1)
decreasing_by all_goals simp only [Value.itemsDepth, Prod.lex_def, List.length_cons]; omega

end

-- ---------------------------------------------------------------------------
-- Merging along a lineage
-- ---------------------------------------------------------------------------

/-- What schemas state themselves, laid over each other in turn. -/
def Merged.ofLineage (schemas : List Value) : Merged :=
  ⟨Dictionary.ofEntries (schemas.flatMap statedProperties), schemas.flatMap statedRequired⟩

theorem steady_of_mem_statedProperties {schema : Value} (hKeyed : schema.wellKeyed = true) :
    ∀ e ∈ statedProperties schema, Steady e.1 := by
  intro e he
  unfold statedProperties at he
  split at he
  · rename_i entries hProperties
    exact steady_of_canBeKey ((wellKeyed_map.mp (field?_wellKeyed hKeyed hProperties)).2 e he).1
  · cases he

/-- Lineages that follow each other are laid over each other as one. -/
theorem Merged.ofLineage_add {before after : List Value} (hKeyed : ∀ s ∈ after, s.wellKeyed = true) :
    (ofLineage before).add (ofLineage after) = ofLineage (before ++ after) := by
  have hSteady : ∀ e ∈ after.flatMap statedProperties, Steady e.1 := by
    intro e he
    obtain ⟨s, hs, he⟩ := List.mem_flatMap.mp he
    exact steady_of_mem_statedProperties (hKeyed s hs) e he
  simp only [Merged.add, ofLineage, List.flatMap_append, overlay_ofEntries hSteady]
  congr 1
  exact List.foldl_append.symm

/-- What a schema states itself is the lineage of this schema alone. -/
theorem ownParts_of_mergeable {schema : Value} (h : Mergeable schema) :
    ownParts schema = .ok (.ofLineage [schema]) := by
  have hProperties : ((schema.field? "properties").getD .emptyMap).contribution =
      .ok (statedProperties schema) := by
    unfold statedProperties
    cases hField : schema.field? "properties" with
    | none => rfl
    | some v =>
      obtain ⟨entries, rfl⟩ := h.properties v hField
      rfl
  have hRequired : ((schema.field? "required").getD (.list [])).elements =
      .ok (statedRequired schema) := by
    unfold statedRequired
    cases hField : schema.field? "required" with
    | none => rfl
    | some v =>
      obtain ⟨names, rfl⟩ := h.required v hField
      rfl
  rw [ownParts, hProperties, hRequired, ok_bind, ok_bind, Merged.ofLineage, List.flatMap_singleton,
    List.flatMap_singleton]
  rfl

mutual

/-- A merged schema states what its lineage states. -/
theorem ownParts_merge (schema : Value) (hMapping : schema.isMapping = true)
    (hKeyed : schema.wellKeyed = true) (hLineage : ∀ s ∈ lineage schema, Mergeable s) :
    ∃ merged, merge schema = .ok merged ∧ ownParts merged = .ok (.ofLineage (lineage schema)) ∧
      ((schema.field? "allOf").isSome = true →
        merged = (Merged.ofLineage (lineage schema)).toSchema) := by
  have hOwn := ownParts_of_mergeable (hLineage schema (mem_lineage_self schema))
  match hStated : schema.field? "allOf" with
  | none =>
    refine ⟨schema, merge_of_plain hMapping hStated, ?_, nofun⟩
    rw [lineage_of_plain hStated]
    exact hOwn
  | some stated =>
    obtain ⟨members, rfl⟩ := (hLineage schema (mem_lineage_self schema)).composition stated hStated
    have hDeeper := Value.field?_depth hStated
    have hMembers := wellKeyed_list.mp (field?_wellKeyed hKeyed hStated)
    rw [lineage_of_members hStated] at hLineage ⊢
    have hTotal := mergeMembers_lineages [schema] members hMembers (List.forall_mem_cons.mp hLineage).2
    refine ⟨(Merged.ofLineage (schema :: lineages members)).toSchema, ?_, ?_, fun _ => rfl⟩
    · rw [merge_of_members hStated, hOwn, ok_bind, hTotal, ok_bind]
      rfl
    · exact ownParts_toSchema (Dictionary.ofEntries_distinct _)
termination_by (schema.depth, 0)
decreasing_by
  simp only [Prod.lex_def, Value.depth] at *
  omega

/-- Laying members over what a lineage states continues the lineage. -/
theorem mergeMembers_lineages (before members : List Value)
    (hKeyed : ∀ member ∈ members, member.wellKeyed = true)
    (hLineages : ∀ s ∈ lineages members, Mergeable s) :
    mergeMembers (.ofLineage before) members = .ok (.ofLineage (before ++ lineages members)) := by
  match members with
  | [] =>
    rw [mergeMembers, lineages, List.append_nil]
  | member :: rest =>
    obtain ⟨hHead, hRest⟩ := List.forall_mem_cons.mp hKeyed
    by_cases hMapping : member.isMapping = true
    · rw [lineages_cons_of_mapping hMapping] at hLineages ⊢
      obtain ⟨hFirst, hLater⟩ := List.forall_mem_append.mp hLineages
      obtain ⟨merged, hMerged, hParts, -⟩ := ownParts_merge member hMapping hHead hFirst
      have hWhole : ∀ s ∈ lineage member, s.wellKeyed = true := fun s hs =>
        (within_of_mem_lineage member s hs).wellKeyed hHead
      rw [mergeMembers_cons hMapping hMerged hParts, Merged.ofLineage_add hWhole,
        mergeMembers_lineages _ rest hRest hLater, List.append_assoc]
    · rw [lineages, if_neg hMapping] at hLineages ⊢
      rw [mergeMembers, if_neg hMapping]
      exact mergeMembers_lineages before rest hRest hLineages
termination_by (Value.itemsDepth members, members.length + 1)
decreasing_by all_goals simp only [Value.itemsDepth, Prod.lex_def, List.length_cons]; omega

end

-- ---------------------------------------------------------------------------
-- Nesting in another way
-- ---------------------------------------------------------------------------

/-- The schema with other members. -/
def withMembers (entries : Entries) (members : List Value) : Value :=
  .map (Dictionary.put entries (.str "allOf") (.list members))

/-- Schemas as the composition of one schema that states nothing itself. -/
def grouped (members : List Value) : Value := .map [(.str "allOf", .list members)]

/-- The second schema is the first one with some consecutive members put into a composition of their
own, among its members or further inside. -/
inductive Regroups : Value → Value → Prop
  | group {entries : Entries} (before run after : List Value)
      (h : Dictionary.get? entries (.str "allOf") = some (.list (before ++ run ++ after))) :
      Regroups (.map entries) (withMembers entries (before ++ [grouped run] ++ after))
  | inside {entries : Entries} (before : List Value) {member member' : Value} (after : List Value)
      (h : Dictionary.get? entries (.str "allOf") = some (.list (before ++ [member] ++ after)))
      (hMember : Regroups member member') :
      Regroups (.map entries) (withMembers entries (before ++ [member'] ++ after))

theorem field?_withMembers (entries : Entries) (members : List Value) :
    (withMembers entries members).field? "allOf" = some (.list members) :=
  get?_put_of_beq (steady_str _) (beq_str.mpr rfl)

theorem field?_withMembers_of_ne {name : String} (h : name ≠ "allOf") (entries : Entries)
    (members : List Value) :
    (withMembers entries members).field? name = (Value.map entries).field? name := by
  refine get?_put_of_not_beq (steady_str name) ?_
  rw [← Bool.not_eq_true, beq_str, Value.str.injEq]
  exact fun hName => h hName.symm

/-- What a schema states itself does not depend on its members. -/
theorem statedProperties_withMembers (entries : Entries) (members : List Value) :
    statedProperties (withMembers entries members) = statedProperties (.map entries) := by
  rw [statedProperties, field?_withMembers_of_ne (by decide), statedProperties]

theorem statedRequired_withMembers (entries : Entries) (members : List Value) :
    statedRequired (withMembers entries members) = statedRequired (.map entries) := by
  rw [statedRequired, field?_withMembers_of_ne (by decide), statedRequired]

/-- What merging asks for is a matter of three fields. -/
theorem Mergeable.of_fields {schema schema' : Value} {members : List Value} (h : Mergeable schema)
    (hProperties : schema'.field? "properties" = schema.field? "properties")
    (hRequired : schema'.field? "required" = schema.field? "required")
    (hStated : schema'.field? "allOf" = some (.list members)) : Mergeable schema' where
  properties v hField := h.properties v (hProperties.symm.trans hField)
  required v hField := h.required v (hRequired.symm.trans hField)
  composition _ hField := ⟨members, Option.some.inj (hField.symm.trans hStated)⟩

/-- Whether a schema can be merged does not depend on which members it has. -/
theorem mergeable_withMembers {entries : Entries} {members members' : List Value}
    (hStated : (Value.map entries).field? "allOf" = some (.list members)) :
    Mergeable (.map entries) ↔ Mergeable (withMembers entries members') := by
  have hProperties := field?_withMembers_of_ne (by decide : "properties" ≠ "allOf") entries members'
  have hRequired := field?_withMembers_of_ne (by decide : "required" ≠ "allOf") entries members'
  constructor
  · intro h
    exact h.of_fields hProperties hRequired (field?_withMembers entries members')
  · intro h
    exact h.of_fields hProperties.symm hRequired.symm hStated

/-- A document stays well-keyed when members are replaced by well-keyed ones. -/
theorem wellKeyed_withMembers {entries : Entries} {members : List Value}
    (hKeyed : (Value.map entries).wellKeyed = true)
    (hMembers : ∀ member ∈ members, member.wellKeyed = true) :
    (withMembers entries members).wellKeyed = true := by
  obtain ⟨hDistinct, hEntries⟩ := wellKeyed_map.mp hKeyed
  exact wellKeyed_map.mpr ⟨Dictionary.put_distinct _ _ hDistinct,
    hEntries.put rfl (wellKeyed_list.mpr hMembers)⟩

/-- With the old members back, the schema is what it was. -/
theorem withMembers_withMembers {entries : Entries} {members : List Value} (members' : List Value)
    (hStated : Dictionary.get? entries (.str "allOf") = some (.list members)) :
    withMembers (Dictionary.put entries (.str "allOf") (.list members')) members = .map entries := by
  rw [withMembers, put_put (steady_str _) (beq_str.mpr rfl), Dictionary.put_eq_self hStated]

/-- What is replaced by members that are as well-keyed keeps a schema well-keyed, and back. -/
theorem wellKeyed_withMembers_iff {entries : Entries} {members members' : List Value}
    (hStated : Dictionary.get? entries (.str "allOf") = some (.list members))
    (hMembers : (∀ member ∈ members, member.wellKeyed = true) ↔
      ∀ member ∈ members', member.wellKeyed = true) :
    (Value.map entries).wellKeyed = true ↔ (withMembers entries members').wellKeyed = true := by
  constructor
  · intro hKeyed
    have hOld := wellKeyed_list.mp (field?_wellKeyed hKeyed hStated)
    exact wellKeyed_withMembers hKeyed (hMembers.mp hOld)
  · intro hKeyed
    have hNew := wellKeyed_list.mp (field?_wellKeyed hKeyed (field?_withMembers entries members'))
    rw [← withMembers_withMembers members' hStated]
    exact wellKeyed_withMembers hKeyed (hMembers.mpr hNew)

theorem wellKeyed_grouped (members : List Value) :
    (grouped members).wellKeyed = true ↔ ∀ member ∈ members, member.wellKeyed = true := by
  rw [grouped, wellKeyed_map]
  simp [Keyed, Dictionary.Distinct, canBeKey, wellKeyed_list]

/-- The lists of schemas state the same, and merging can deal with both or with none of them. -/
structure StateAlike (xs ys : List Value) : Prop where
  properties : xs.flatMap statedProperties = ys.flatMap statedProperties
  required   : xs.flatMap statedRequired = ys.flatMap statedRequired
  mergeable  : (∀ s ∈ xs, Mergeable s) ↔ ∀ s ∈ ys, Mergeable s

namespace StateAlike

theorem refl (xs : List Value) : StateAlike xs xs := ⟨rfl, rfl, .rfl⟩

theorem append {xs ys xs' ys' : List Value} (h : StateAlike xs ys) (h' : StateAlike xs' ys') :
    StateAlike (xs ++ xs') (ys ++ ys') := by
  constructor
  · rw [List.flatMap_append, List.flatMap_append, h.properties, h'.properties]
  · rw [List.flatMap_append, List.flatMap_append, h.required, h'.required]
  · rw [List.forall_mem_append, List.forall_mem_append, h.mergeable, h'.mergeable]

/-- With members that state the same, a schema does so as well. -/
theorem withMembers {entries : Entries} {members members' : List Value}
    (hStated : (Value.map entries).field? "allOf" = some (.list members))
    (h : StateAlike (lineages members) (lineages members')) :
    StateAlike (lineage (.map entries)) (lineage (withMembers entries members')) := by
  rw [lineage_of_members hStated, lineage_of_members (field?_withMembers entries members')]
  constructor
  · rw [List.flatMap_cons, List.flatMap_cons, statedProperties_withMembers, h.properties]
  · rw [List.flatMap_cons, List.flatMap_cons, statedRequired_withMembers, h.required]
  · rw [List.forall_mem_cons, List.forall_mem_cons, mergeable_withMembers hStated, h.mergeable]

end StateAlike

/-- What is grouped states the same as before. -/
theorem lineages_grouped (members : List Value) :
    StateAlike (lineages members) (lineages [grouped members]) := by
  have hMembers : (grouped members).field? "allOf" = some (.list members) := by
    simp [grouped, field?, Dictionary.get?]
  have hProperties : (grouped members).field? "properties" = none := by
    simp [grouped, field?, Dictionary.get?]
  have hRequired : (grouped members).field? "required" = none := by
    simp [grouped, field?, Dictionary.get?]
  have hMergeable : Mergeable (grouped members) := by
    constructor
    · intro v hField
      cases hProperties.symm.trans hField
    · intro v hField
      cases hRequired.symm.trans hField
    · intro v hField
      cases hMembers.symm.trans hField
      exact ⟨members, rfl⟩
  rw [lineages_cons_of_mapping rfl, lineage_of_members hMembers, lineages, List.append_nil]
  constructor
  · rw [List.flatMap_cons, statedProperties, hProperties, List.nil_append]
  · rw [List.flatMap_cons, statedRequired, hRequired, List.nil_append]
  · rw [List.forall_mem_cons, and_iff_right hMergeable]

/-- The schemas are merged alike. -/
structure MergesAlike (schema schema' : Value) : Prop where
  stated   : StateAlike (lineage schema) (lineage schema')
  keyed    : schema.wellKeyed = true ↔ schema'.wellKeyed = true
  composed : (schema.field? "allOf").isSome = true ↔ (schema'.field? "allOf").isSome = true

theorem mergesAlike_equivalence : Equivalence MergesAlike where
  refl _ := ⟨.refl _, .rfl, .rfl⟩
  symm h := ⟨⟨h.stated.properties.symm, h.stated.required.symm, h.stated.mergeable.symm⟩,
    h.keyed.symm, h.composed.symm⟩
  trans h h' := ⟨⟨h.stated.properties.trans h'.stated.properties,
    h.stated.required.trans h'.stated.required, h.stated.mergeable.trans h'.stated.mergeable⟩,
    h.keyed.trans h'.keyed, h.composed.trans h'.composed⟩

theorem Regroups.isMapping {schema regrouped : Value} (h : Regroups schema regrouped) :
    schema.isMapping = true ∧ regrouped.isMapping = true := by
  cases h <;> exact ⟨rfl, rfl⟩

/-- Nesting members in another way leaves what is merged. -/
theorem Regroups.mergesAlike {schema regrouped : Value} (h : Regroups schema regrouped) :
    MergesAlike schema regrouped := by
  induction h with
  | group before run after h =>
    constructor
    · refine .withMembers h ?_
      simp only [lineages_append]
      exact ((StateAlike.refl _).append (lineages_grouped run)).append (.refl _)
    · refine wellKeyed_withMembers_iff h ?_
      simp only [List.forall_mem_append, List.forall_mem_singleton, wellKeyed_grouped]
    · rw [field?_withMembers, show (Value.map _).field? "allOf" = _ from h]
      rfl
  | inside before after h hMember ih =>
    constructor
    · refine .withMembers h ?_
      simp only [lineages_append]
      rw [lineages_cons_of_mapping hMember.isMapping.1, lineages_cons_of_mapping hMember.isMapping.2]
      exact ((StateAlike.refl _).append (ih.stated.append (.refl _))).append (.refl _)
    · refine wellKeyed_withMembers_iff h ?_
      simp only [List.forall_mem_append, List.forall_mem_singleton, ih.keyed]
    · rw [field?_withMembers, show (Value.map _).field? "allOf" = _ from h]
      rfl

-- ---------------------------------------------------------------------------
-- The merged object
-- ---------------------------------------------------------------------------

/-- A composed schema is merged in one run along its lineage. -/
theorem merge_composed {schema : Value} (hKeyed : schema.wellKeyed = true)
    (hLineage : ∀ s ∈ lineage schema, Mergeable s)
    (hComposed : (schema.field? "allOf").isSome = true) :
    merge schema = .ok (Merged.ofLineage (lineage schema)).toSchema := by
  have hMapping : schema.isMapping = true := by
    cases schema with
    | map entries => rfl
    | _ => cases hComposed
  obtain ⟨merged, hMerged, -, hWhole⟩ := ownParts_merge schema hMapping hKeyed hLineage
  rw [hMerged, hWhole hComposed]

/-- The entries of mappings, one after the other, make up what the mappings do in turn. -/
theorem foldl_overlay_eq_ofEntries (schemas : List Value) :
    schemas.foldl (fun laid s => Dictionary.overlay laid (statedProperties s)) [] =
      Dictionary.ofEntries (schemas.flatMap statedProperties) := by
  rw [Dictionary.ofEntries, Dictionary.overlay, List.foldl_flatMap]
  rfl

/-- **Merging is one run along the lineage.** The properties of the schema and of its members at any
depth are laid over each other in the order of the lineage, and their required names follow each
other in this order. A property has its place from its first occurrence and its schema from the last
one. Putting members into compositions of their own, or taking them out of such compositions, changes
nothing. -/
theorem merge_lineage {schema : Value} (hKeyed : schema.wellKeyed = true)
    (hLineage : ∀ s ∈ lineage schema, Mergeable s)
    (hComposed : (schema.field? "allOf").isSome = true) :
    ∃ merged : Merged, merge schema = .ok merged.toSchema ∧
      merged.properties = (lineage schema).foldl
        (fun laid s => Dictionary.overlay laid (statedProperties s)) [] ∧
      merged.required = (lineage schema).flatMap statedRequired ∧
      merged.properties.keys =
        firstsBy id (Dictionary.keys ((lineage schema).flatMap statedProperties)) ∧
      (∀ key : Value, key.canBeKey = true → Dictionary.get? merged.properties key =
        (((lineage schema).flatMap statedProperties).reverse.find? (·.1 == key)).map (·.2)) ∧
      ∀ regrouped, Relation.EqvGen Regroups schema regrouped → merge regrouped = merge schema := by
  have hMerge := merge_composed hKeyed hLineage hComposed
  refine ⟨.ofLineage (lineage schema), hMerge, (foldl_overlay_eq_ofEntries _).symm, rfl,
    keys_ofEntries _, fun key hKey => get?_ofEntries (steady_of_canBeKey hKey) _, ?_⟩
  intro regrouped hRegrouped
  have hAlike : MergesAlike schema regrouped := mergesAlike_equivalence.eqvGen_iff.mp
    (Relation.EqvGen.mono (fun _ _ => Regroups.mergesAlike) _ _ hRegrouped)
  rw [hMerge, merge_composed (hAlike.keyed.mp hKeyed) (hAlike.stated.mergeable.mp hLineage)
    (hAlike.composed.mp hComposed), Merged.ofLineage, Merged.ofLineage, hAlike.stated.properties,
    hAlike.stated.required]

/-- A member of the innermost composition. -/
def innerMember : Value :=
  .map [(.str "properties", .map [(.str "id", .str "inner"), (.str "name", .str "inner")])]

/-- A member that has a member itself, beside one that is no schema. -/
def outerMember : Value :=
  .map [(.str "allOf", .list [innerMember, .str "note"]), (.str "required", .list [.str "age"]),
    (.str "properties", .map [(.str "age", .str "outer"), (.str "id", .str "outer")])]

/-- A last member that takes a property over. -/
def lastMember : Value := .map [(.str "properties", .map [(.str "tag", .str "last")])]

/-- The entries of a schema with these members. -/
def layeredEntries : Entries :=
  [(.str "required", .list [.str "name"]),
    (.str "properties", .map [(.str "name", .str "own"), (.str "tag", .str "own")]),
    (.str "allOf", .list [outerMember, lastMember])]

theorem lineage_layeredEntries :
    lineage (.map layeredEntries) = [.map layeredEntries, outerMember, innerMember, lastMember] := by
  have hOuter : outerMember.field? "allOf" = some (.list [innerMember, .str "note"]) := by cbv
  have hInner : innerMember.field? "allOf" = none := by cbv
  have hLast : lastMember.field? "allOf" = none := by cbv
  have hAll : (Value.map layeredEntries).field? "allOf" = some (.list [outerMember, lastMember]) := by
    cbv
  have hMapping : outerMember.isMapping = true ∧ innerMember.isMapping = true ∧
      lastMember.isMapping = true := ⟨rfl, rfl, rfl⟩
  have hNote : lineages [.str "note"] = [] := by rw [lineages, if_neg (by decide), lineages]
  rw [lineage_of_members hAll, lineages_cons_of_mapping hMapping.1, lineage_of_members hOuter,
    lineages_cons_of_mapping hMapping.2.1, lineage_of_plain hInner, hNote,
    lineages_cons_of_mapping hMapping.2.2, lineage_of_plain hLast, lineages]
  rfl

/-- Members that are composed of members, overlapping ones and one that is no schema. -/
theorem merge_layeredEntries :
    (Value.map layeredEntries).wellKeyed = true ∧
      (∀ s ∈ lineage (.map layeredEntries), Mergeable s) ∧
      ((Value.map layeredEntries).field? "allOf").isSome = true ∧
      (∃ merged : Merged, merge (.map layeredEntries) = .ok merged.toSchema ∧
        merged.properties = [(.str "name", .str "inner"), (.str "tag", .str "last"),
          (.str "age", .str "outer"), (.str "id", .str "inner")] ∧
        merged.required = [.str "name", .str "age"]) ∧
      merge (withMembers layeredEntries [grouped [outerMember, lastMember]]) =
        merge (.map layeredEntries) := by
  have hKeyed : (Value.map layeredEntries).wellKeyed = true := by decide +kernel
  have hComposed : ((Value.map layeredEntries).field? "allOf").isSome = true := by decide +kernel
  have hLineage : ∀ s ∈ lineage (.map layeredEntries), Mergeable s := by
    rw [lineage_layeredEntries]
    decide +kernel
  obtain ⟨merged, hMerged, hProperties, hRequired, -, -, hRegrouped⟩ :=
    merge_lineage hKeyed hLineage hComposed
  rw [lineage_layeredEntries] at hProperties hRequired
  refine ⟨hKeyed, hLineage, hComposed, ⟨merged, hMerged, hProperties.trans ?_,
    hRequired.trans ?_⟩, hRegrouped _ (.rel _ _ ?_)⟩
  · simp [statedProperties, layeredEntries, outerMember, innerMember, lastMember, field?,
      Dictionary.get?, Dictionary.overlay, Dictionary.put]
  · simp [statedRequired, layeredEntries, outerMember, innerMember, lastMember, field?,
      Dictionary.get?]
  · exact .group [] [outerMember, lastMember] [] (by cbv)

end ClientGen.Schema
