import ClientGen.Enumeration.Registry
import ClientGen.Proofs.Dictionary
import ClientGen.Proofs.Document.SteadyKeys
import ClientGen.Proofs.Schema.Siblings

/-!
# Composed schemas

The properties of a composed schema are gathered twice. Merging goes down into the
members of members, at any depth; the collection of enumerations takes what each member
states itself and goes no deeper. This module compares the two, property by property:
they agree on every property that no member takes over from its own members.

Main results:

* `get?_mergeMembers` — members that do not have a property leave it as it was.
* `get?_ownParts_of_not_inherits` — a member has its own property, unless it takes the
  property over.
* `get?_mergedProperties` — what merging and collecting find under a key that is not
  `Buried` is the same.
-/

namespace ClientGen.Schema

open ClientGen.Document ClientGen.Document.Value ClientGen.Enumeration

-- ---------------------------------------------------------------------------
-- Schemas without members
-- ---------------------------------------------------------------------------

/-- A mapping mentions its keys. -/
theorem mentions_of_isMapping {v : Value} (h : v.isMapping = true) (name : String) :
    v.mentions name = .ok (v.field? name).isSome := by
  cases v with
  | map entries => exact congrArg Except.ok (Dictionary.has_eq_isSome entries _)
  | _ => cases h

/-- A schema without members stays as it is. -/
theorem merge_of_plain {schema : Value} (hMapping : schema.isMapping = true)
    (hPlain : schema.field? "allOf" = none) : merge schema = .ok schema := by
  rw [merge, mentions_of_isMapping hMapping, hPlain]
  rfl

-- ---------------------------------------------------------------------------
-- Properties that members take over
-- ---------------------------------------------------------------------------

/-- The schemas that a schema is composed of. -/
def membersOf (schema : Value) : List Value :=
  match schema.field? "allOf" with
  | some (.list items) => items.filter Value.isMapping
  | _ => []

theorem membersOf_of_list {schema : Value} {items : List Value}
    (h : schema.field? "allOf" = some (.list items)) :
    membersOf schema = items.filter Value.isMapping := by
  simp only [membersOf, h]

theorem membersOf_of_not_list {schema : Value}
    (h : ∀ items, schema.field? "allOf" ≠ some (.list items)) : membersOf schema = [] := by
  unfold membersOf
  split
  · exact absurd ‹_› (h _)
  · rfl

theorem isMapping_of_mem_membersOf {schema member : Value} (h : member ∈ membersOf schema) :
    member.isMapping = true := by
  unfold membersOf at h
  split at h
  · exact (List.mem_filter.mp h).2
  · cases h

/-- Merged, the schema has a property under the key. -/
def Offers (schema key : Value) : Prop :=
  ∃ merged parts, merge schema = .ok merged ∧ ownParts merged = .ok parts ∧
    (Dictionary.get? parts.properties key).isSome = true

/-- The schema takes the property over from one of its members. -/
def Inherits (schema key : Value) : Prop := ∃ member ∈ membersOf schema, Offers member key

/-- A member takes the property over from one of its own members. -/
def Buried (schema key : Value) : Prop := ∃ member ∈ membersOf schema, Inherits member key

-- ---------------------------------------------------------------------------
-- Merging
-- ---------------------------------------------------------------------------

/-- The entries that the properties of a schema contribute. -/
def contributed (schema : Value) : Except Fault Entries :=
  ((schema.field? "properties").getD .emptyMap).contribution

theorem exists_of_ownParts_ok {schema : Value} {parts : Merged} (h : ownParts schema = .ok parts) :
    ∃ own, contributed schema = .ok own ∧ parts.properties = Dictionary.ofEntries own := by
  obtain ⟨own, hOwn, h⟩ := exists_of_bind_ok h
  obtain ⟨required, -, h⟩ := exists_of_bind_ok h
  cases h
  exact ⟨own, hOwn, rfl⟩

theorem field?_properties_toSchema (m : Merged) :
    m.toSchema.field? "properties" = some (.map m.properties) := by
  simp [Merged.toSchema, field?, Dictionary.get?]

theorem field?_required_toSchema (m : Merged) :
    m.toSchema.field? "required" = some (.list m.required) := by
  simp [Merged.toSchema, field?, Dictionary.get?]

theorem member_toSchema (m : Merged) (name : String) :
    m.toSchema.member name = .ok (m.toSchema.field? name) := rfl

/-- A merged object states the parts that it was merged from. -/
theorem ownParts_toSchema {m : Merged} (h : Dictionary.Distinct m.properties) :
    ownParts m.toSchema = .ok m := by
  rw [ownParts, field?_properties_toSchema, field?_required_toSchema]
  simp only [Option.getD_some, Value.contribution, Value.elements, ok_bind,
    Dictionary.ofEntries_eq_self h]
  rfl

theorem mergeMembers_filter (parts : Merged) (members : List Value) :
    mergeMembers parts (members.filter Value.isMapping) = mergeMembers parts members := by
  induction members generalizing parts with
  | nil => rfl
  | cons member rest ih =>
    cases hMapping : member.isMapping with
    | true =>
      rw [List.filter_cons_of_pos hMapping, mergeMembers, mergeMembers, if_pos hMapping, if_pos hMapping]
      simp only [ih]
    | false =>
      have hOther : ¬ member.isMapping = true := by rw [hMapping]; exact Bool.false_ne_true
      rw [List.filter_cons_of_neg hOther, ih, mergeMembers, if_neg hOther]

/-- Merging leaves a schema as it is, or lays its members over what it states itself. -/
theorem merge_cases {schema merged : Value} (hMapping : schema.isMapping = true)
    (h : merge schema = .ok merged) :
    (schema.field? "allOf" = none ∧ merged = schema) ∨
      ∃ own total, (schema.field? "allOf").isSome = true ∧ ownParts schema = .ok own ∧
        mergeMembers own (membersOf schema) = .ok total ∧ merged = total.toSchema := by
  cases hStated : schema.field? "allOf" with
  | none =>
    rw [merge_of_plain hMapping hStated] at h
    exact Or.inl ⟨rfl, (Except.ok.inj h).symm⟩
  | some stated =>
    right
    rw [merge, mentions_of_isMapping hMapping, hStated, ok_bind, if_pos Option.isSome_some,
      if_pos hMapping] at h
    obtain ⟨own, hOwn, h⟩ := exists_of_bind_ok h
    split at h
    · rename_i items hItems
      obtain ⟨total, hTotal, h⟩ := exists_of_bind_ok h
      refine ⟨own, total, rfl, hOwn, ?_, (Except.ok.inj h).symm⟩
      rw [membersOf_of_list (hStated.trans hItems), mergeMembers_filter, hTotal]
    · rename_i hOther hSome
      obtain ⟨_, -, h⟩ := exists_of_bind_ok h
      refine ⟨own, own, rfl, hOwn, ?_, (Except.ok.inj h).symm⟩
      rw [membersOf_of_not_list, mergeMembers]
      intro items hItems
      exact hOther items (Option.some.inj (hSome.symm.trans (hStated.symm.trans hItems)))
    · rename_i hNone
      cases hNone

/-- A composition is its members laid over what it states itself. -/
theorem merge_of_members {schema : Value} {members : List Value}
    (h : schema.field? "allOf" = some (.list members)) :
    merge schema = do
      let own ← ownParts schema
      let total ← mergeMembers own members
      return total.toSchema := by
  have hMapping := isMapping_of_field? h
  rw [merge, mentions_of_isMapping hMapping, h, ok_bind, if_pos Option.isSome_some, if_pos hMapping]

theorem mergeMembers_cons {parts own : Merged} {member merged : Value} {rest : List Value}
    (hMapping : member.isMapping = true) (hMerged : merge member = .ok merged)
    (hOwn : ownParts merged = .ok own) :
    mergeMembers parts (member :: rest) = mergeMembers (parts.add own) rest := by
  rw [mergeMembers, if_pos hMapping, hMerged, ok_bind, hOwn, ok_bind]

/-- Members that do not have a property leave it as it was. -/
theorem get?_mergeMembers {key : Value} (hSteady : Steady key) {parts total : Merged}
    {members : List Value} (hNone : ∀ member ∈ members, ¬ Offers member key)
    (h : mergeMembers parts members = .ok total) :
    Dictionary.get? total.properties key = Dictionary.get? parts.properties key := by
  induction members generalizing parts with
  | nil =>
    rw [mergeMembers] at h
    cases h
    rfl
  | cons member rest ih =>
    obtain ⟨hFirst, hRest⟩ := List.forall_mem_cons.mp hNone
    rw [mergeMembers] at h
    split at h
    · obtain ⟨merged, hMerged, h⟩ := exists_of_bind_ok h
      obtain ⟨own, hOwn, h⟩ := exists_of_bind_ok h
      have hAbsent : Dictionary.get? own.properties key = none := by
        rw [← Option.not_isSome_iff_eq_none]
        exact fun hSome => hFirst ⟨merged, own, hMerged, hOwn, hSome⟩
      rw [ih hRest h]
      exact get?_overlay_of_none hSteady hAbsent
    · exact ih hRest h

theorem membersOf_wellKeyed {schema : Value} (hKeyed : schema.wellKeyed = true) :
    ∀ member ∈ membersOf schema, member.wellKeyed = true := by
  intro member hMember
  unfold membersOf at hMember
  split at hMember
  · rename_i hItems
    exact wellKeyed_list.mp (field?_wellKeyed hKeyed hItems) member (List.mem_of_mem_filter hMember)
  · cases hMember

/-- A member has its own property, unless it takes the property over. -/
theorem get?_ownParts_of_not_inherits {key : Value} (hSteady : Steady key) {member merged : Value}
    {parts : Merged} (hMapping : member.isMapping = true) (hKeyed : member.wellKeyed = true)
    (hMerged : merge member = .ok merged) (hParts : ownParts merged = .ok parts)
    (hNot : ¬ Inherits member key) :
    ∃ own, contributed member = .ok own ∧
      Dictionary.get? parts.properties key = Dictionary.get? (Dictionary.ofEntries own) key := by
  rcases merge_cases hMapping hMerged with ⟨-, rfl⟩ | ⟨first, total, -, hFirst, hTotal, rfl⟩
  · obtain ⟨own, hOwn, hProperties⟩ := exists_of_ownParts_ok hParts
    exact ⟨own, hOwn, by rw [hProperties]⟩
  · have hWhole := mergeMembers_wellKeyed first _ (ownParts_wellKeyed hKeyed hFirst)
      (membersOf_wellKeyed hKeyed) hTotal
    rw [ownParts_toSchema hWhole.distinct] at hParts
    cases hParts
    obtain ⟨own, hOwn, hProperties⟩ := exists_of_ownParts_ok hFirst
    refine ⟨own, hOwn, ?_⟩
    rw [← hProperties]
    exact get?_mergeMembers hSteady (fun m hm hOffers => hNot ⟨m, hm, hOffers⟩) hTotal

-- ---------------------------------------------------------------------------
-- Merging and collecting
-- ---------------------------------------------------------------------------

/-- What counts as false contributes nothing, if it contributes at all. -/
theorem contribution_orElse {v : Option Value} {es : Entries}
    (h : (v.getD .emptyMap).contribution = .ok es) :
    (orElse v .emptyMap).contribution = .ok es := by
  cases v with
  | none => exact h
  | some v =>
    rw [orElse_some]
    split
    · exact h
    · rename_i hFalse
      rw [Option.getD_some] at h
      rw [← h]
      cases v with
      | str text =>
        simp only [isTruthy, bne_iff_ne, ne_eq, Decidable.not_not] at hFalse
        subst hFalse
        rfl
      | list items | map items | bytes items | set items =>
        simp only [isTruthy, Bool.not_eq_true, Bool.not_eq_false', List.isEmpty_iff] at hFalse
        subst hFalse
        rfl
      | date _ | moment _ => exact absurd rfl hFalse
      | _ => cases h

/-- Lay what a member states itself over the properties so far. -/
def layOver (properties : Entries) (member : Value) : Except Fault Entries := do
  let more ← (orElse (member.field? "properties") .emptyMap).contribution
  return Dictionary.overlay properties more

theorem not_isMapping_of_canBeKey {v : Value} (h : v.canBeKey = true) : ¬ v.isMapping = true := by
  cases v with
  | map _ => cases h
  | _ => exact Bool.false_ne_true

/-- Only a list can be gone through by what is no key. -/
theorem canBeKey_of_elements {v : Value} {items : List Value} (hKeyed : v.wellKeyed = true)
    (hNoList : ∀ listed, v ≠ .list listed) (hSet : ∀ held, v = .set held → ∀ x ∈ held, x.canBeKey = true)
    (h : v.elements = .ok items) : ∀ x ∈ items, x.canBeKey = true := by
  intro x hx
  cases v with
  | list listed => exact absurd rfl (hNoList listed)
  | set held =>
    cases h
    exact hSet _ rfl x hx
  | map entries =>
    cases h
    obtain ⟨e, he, rfl⟩ := List.mem_map.mp hx
    exact ((wellKeyed_map.mp hKeyed).2 e he).1
  | str _ | bytes _ =>
    cases h
    obtain ⟨_, -, rfl⟩ := List.mem_map.mp hx
    rfl
  | _ => cases h

/-- The mappings that a composition can be gone through by are its members. -/
theorem membersOf_of_elements {schema : Value} {items : List Value} (hKeyed : schema.wellKeyed = true)
    (hSets : ∀ items, schema.field? "allOf" = some (.set items) → ∀ v ∈ items, v.canBeKey = true)
    (h : (orElse (schema.field? "allOf") (.list [])).elements = .ok items) :
    items.filter Value.isMapping = membersOf schema := by
  cases hStated : schema.field? "allOf" with
  | none =>
    rw [hStated] at h
    cases h
    rw [membersOf_of_not_list (by simp [hStated])]
    rfl
  | some stated =>
    rw [hStated, orElse_some] at h
    by_cases hList : ∃ listed, stated = .list listed
    · obtain ⟨listed, rfl⟩ := hList
      rw [membersOf_of_list hStated]
      -- the empty list counts as false, and then stands for itself
      cases listed with
      | nil => cases h; rfl
      | cons _ _ => cases h; rfl
    · have hNoList : ∀ listed, stated ≠ .list listed := fun listed hSame => hList ⟨listed, hSame⟩
      rw [membersOf_of_not_list (by simpa [hStated] using hNoList), List.filter_eq_nil_iff]
      split at h
      · have hKeys := canBeKey_of_elements (field?_wellKeyed hKeyed hStated) hNoList
          (fun held hSame => hSets held (hStated.trans (congrArg some hSame))) h
        exact fun v hv => not_isMapping_of_canBeKey (hKeys v hv)
      · cases h
        simp

/-- The properties that are collected from a component schema. -/
theorem exists_of_componentProperties_ok {schema : Value} {collected : Entries}
    (hKeyed : schema.wellKeyed = true)
    (hSets : ∀ items, schema.field? "allOf" = some (.set items) → ∀ v ∈ items, v.canBeKey = true)
    (h : componentProperties schema = .ok collected) :
    ∃ own, (orElse (schema.field? "properties") .emptyMap).contribution = .ok own ∧
      (membersOf schema).foldlM layOver (Dictionary.ofEntries own) = .ok collected := by
  obtain ⟨own, hOwn, h⟩ := exists_of_bind_ok h
  obtain ⟨items, hItems, h⟩ := exists_of_bind_ok h
  rw [membersOf_of_elements hKeyed hSets hItems] at h
  exact ⟨own, hOwn, h⟩

/-- Laid over properties that agree under a key, members that do not take it over from their
own members leave properties that agree under it. -/
theorem get?_layOver {key : Value} (hSteady : Steady key) {members : List Value} {parts total : Merged}
    {properties collected : Entries} (hMembers : ∀ m ∈ members, m.isMapping = true ∧ m.wellKeyed = true)
    (hNot : ∀ m ∈ members, ¬ Inherits m key)
    (hBase : Dictionary.get? parts.properties key = Dictionary.get? properties key)
    (hMerged : mergeMembers parts members = .ok total)
    (hCollected : members.foldlM layOver properties = .ok collected) :
    Dictionary.get? total.properties key = Dictionary.get? collected key := by
  induction members generalizing parts properties with
  | nil =>
    rw [mergeMembers] at hMerged
    cases hMerged
    cases hCollected
    exact hBase
  | cons member rest ih =>
    obtain ⟨⟨hMapping, hKeyed⟩, hMembers⟩ := List.forall_mem_cons.mp hMembers
    obtain ⟨hFirst, hNot⟩ := List.forall_mem_cons.mp hNot
    rw [mergeMembers, if_pos hMapping] at hMerged
    obtain ⟨merged, hMember, hMerged⟩ := exists_of_bind_ok hMerged
    obtain ⟨own, hOwn, hMerged⟩ := exists_of_bind_ok hMerged
    rw [List.foldlM_cons] at hCollected
    obtain ⟨laid, hLaid, hCollected⟩ := exists_of_bind_ok hCollected
    obtain ⟨more, hMore, hLaid⟩ := exists_of_bind_ok hLaid
    cases hLaid
    refine ih hMembers hNot ?_ hMerged hCollected
    -- the member states the same under the key, merged or not
    obtain ⟨stated, hStated, hSame⟩ :=
      get?_ownParts_of_not_inherits hSteady hMapping hKeyed hMember hOwn hFirst
    rw [contribution_orElse hStated] at hMore
    cases hMore
    have hDistinct : Dictionary.Distinct own.properties := by
      obtain ⟨_, -, hProperties⟩ := exists_of_ownParts_ok hOwn
      exact hProperties ▸ Dictionary.ofEntries_distinct _
    show Dictionary.get? (Dictionary.overlay parts.properties own.properties) key = _
    rw [get?_overlay hSteady, get?_overlay hSteady, Dictionary.ofEntries_eq_self hDistinct, hSame, hBase]

/-- The properties of a schema with all its members, at any depth. -/
def mergedProperties (schema : Value) : Except Fault Entries := do
  (orElse (← (← merge schema).member "properties") .emptyMap).entries

theorem exists_of_mergedProperties_ok {schema : Value} {properties : Entries}
    (h : mergedProperties schema = .ok properties) :
    ∃ merged, merge schema = .ok merged ∧ merged.isMapping = true ∧
      orElse (merged.field? "properties") .emptyMap = .map properties := by
  obtain ⟨merged, hMerged, h⟩ := exists_of_bind_ok h
  obtain ⟨stated, hStated, h⟩ := exists_of_bind_ok h
  have hMapping : merged.isMapping = true := by
    cases merged with
    | map _ => rfl
    | _ => cases hStated
  rw [member_of_isMapping hMapping] at hStated
  cases hStated
  refine ⟨merged, hMerged, hMapping, ?_⟩
  unfold Value.entries at h
  split at h
  · cases h
    assumption
  · cases h

/-- Only a mapping is merged into a mapping. -/
theorem isMapping_of_merge {schema merged : Value} (h : merge schema = .ok merged)
    (hMapping : merged.isMapping = true) : schema.isMapping = true := by
  rw [merge] at h
  obtain ⟨mentioned, -, h⟩ := exists_of_bind_ok h
  split at h
  · split at h
    · assumption
    · cases h
  · cases h
    exact hMapping

/-- Merged properties are the entries of a mapping. -/
theorem mergedProperties_wellKeyed {schema : Value} {properties : Entries}
    (hKeyed : schema.wellKeyed = true) (h : mergedProperties schema = .ok properties) :
    (Value.map properties).wellKeyed = true := by
  obtain ⟨merged, hMerged, -, hProperties⟩ := exists_of_mergedProperties_ok h
  rw [← hProperties]
  exact orElse_wellKeyed (fun _ hw => field?_wellKeyed (merge_wellKeyed schema hKeyed hMerged) hw) rfl

/-- **Collecting sees what merging sees.** Under a key that no member takes over from its
own members, the properties that are collected from a component schema and those that are
merged from it are the same. -/
theorem get?_mergedProperties {key : Value} (hSteady : Steady key) {schema : Value}
    {properties collected : Entries} (hKeyed : schema.wellKeyed = true)
    (hSets : ∀ items, schema.field? "allOf" = some (.set items) → ∀ v ∈ items, v.canBeKey = true)
    (hMerged : mergedProperties schema = .ok properties)
    (hCollected : componentProperties schema = .ok collected) (hNot : ¬ Buried schema key) :
    Dictionary.get? properties key = Dictionary.get? collected key := by
  obtain ⟨merged, hMerge, hMapping, hProperties⟩ := exists_of_mergedProperties_ok hMerged
  obtain ⟨own, hOwn, hCollected⟩ := exists_of_componentProperties_ok hKeyed hSets hCollected
  rcases merge_cases (isMapping_of_merge hMerge hMapping) hMerge with
    ⟨hPlain, rfl⟩ | ⟨first, total, -, hFirst, hTotal, rfl⟩
  · rw [hProperties] at hOwn
    cases hOwn
    rw [membersOf_of_not_list (by simp [hPlain])] at hCollected
    cases hCollected
    rw [Dictionary.ofEntries_eq_self (wellKeyed_map.mp (mergedProperties_wellKeyed hKeyed hMerged)).1]
  · rw [field?_properties_toSchema, orElse_map] at hProperties
    cases hProperties
    obtain ⟨stated, hStated, hParts⟩ := exists_of_ownParts_ok hFirst
    rw [contribution_orElse hStated] at hOwn
    cases hOwn
    refine get?_layOver hSteady ?_ (fun m hm hInherits => hNot ⟨m, hm, hInherits⟩) (by rw [hParts])
      hTotal hCollected
    exact fun m hm => ⟨isMapping_of_mem_membersOf hm, membersOf_wellKeyed hKeyed m hm⟩

end ClientGen.Schema
