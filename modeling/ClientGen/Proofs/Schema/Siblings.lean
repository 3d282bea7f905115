import ClientGen.Proofs.Document.Keys
import ClientGen.Proofs.Outcome
import ClientGen.Schema.Body
import ClientGen.Schema.Declared

/-!
# Parameters with distinct siblings

Side tables find a parameter by the names that lead to it, so the parameters that
stand side by side must have different names. Three readers see to this, each in
its own way: declarations and body properties are dropped if their name is taken,
and the properties of an inline object are the entries of a mapping. The last case
needs that merging keeps the keys of a mapping distinct at every depth.

Main results:

* `merge_wellKeyed` — merging composed schemas keeps values well keyed.
* `propertyParameter_apart` — inside the parameter for a property, siblings have
  different names at every depth.
* `requestBody_apart` / `declaredParameters_apart` — so they do in every slot.
* `declare_cases` — what a declaration does.
* `bodyParameters_named` — a property that refers to no schema is sent under its own name.
-/

namespace ClientGen.Schema

open ClientGen.Api ClientGen.Document ClientGen.Document.Value

-- ---------------------------------------------------------------------------
-- Merging
-- ---------------------------------------------------------------------------

/-- The parts of a merged object are well keyed. -/
structure Merged.WellKeyed (m : Merged) : Prop where
  distinct : Dictionary.Distinct m.properties
  keyed    : Keyed m.properties
  required : ∀ v ∈ m.required, v.wellKeyed = true

theorem ownParts_wellKeyed {schema : Value} {parts : Merged} (hSchema : schema.wellKeyed = true)
    (h : ownParts schema = .ok parts) : parts.WellKeyed := by
  unfold ownParts at h
  obtain ⟨properties, hProperties, h⟩ := exists_of_bind_ok h
  obtain ⟨required, hRequired, h⟩ := exists_of_bind_ok h
  cases h
  have hField : ∀ name (default : Value), default.wellKeyed = true →
      ((schema.field? name).getD default).wellKeyed = true := by
    intro name default hDefault
    cases hField : schema.field? name with
    | none => exact hDefault
    | some w => exact field?_wellKeyed hSchema hField
  refine ⟨Dictionary.ofEntries_distinct _, ?_, ?_⟩
  · exact (contribution_wellKeyed (hField _ _ rfl) hProperties).ofEntries
  · exact elements_wellKeyed (hField _ _ rfl) hRequired

theorem Merged.WellKeyed.add {m n : Merged} (hm : m.WellKeyed) (hn : n.WellKeyed) :
    (m.add n).WellKeyed := by
  refine ⟨Dictionary.overlay_distinct _ hm.distinct, hm.keyed.overlay hn.keyed, ?_⟩
  intro v hv
  rcases List.mem_append.mp hv with hv | hv
  · exact hm.required v hv
  · exact hn.required v hv

theorem Merged.WellKeyed.toSchema {m : Merged} (h : m.WellKeyed) :
    m.toSchema.wellKeyed = true := by
  have hProperties : (Value.map m.properties).wellKeyed = true := wellKeyed_map.mpr ⟨h.distinct, h.keyed⟩
  have hRequired : (Value.list m.required).wellKeyed = true := wellKeyed_list.mpr h.required
  rw [Merged.toSchema, wellKeyed_map]
  refine ⟨?_, ?_⟩
  · rw [Dictionary.distinct_iff_keys]
    show List.Pairwise _ [Value.str "type", .str "properties", .str "required"]
    simp [← Bool.not_eq_true]
  · intro e he
    simp only [List.mem_cons, List.not_mem_nil, or_false] at he
    rcases he with rfl | rfl | rfl
    · exact ⟨rfl, rfl⟩
    · exact ⟨rfl, hProperties⟩
    · exact ⟨rfl, hRequired⟩

mutual

/-- Merging keeps values well keyed. -/
theorem merge_wellKeyed (schema : Value) {merged : Value} (hSchema : schema.wellKeyed = true)
    (h : merge schema = .ok merged) : merged.wellKeyed = true := by
  rw [merge] at h
  obtain ⟨mentioned, -, h⟩ := exists_of_bind_ok h
  split at h
  · -- a composition: its own parts first, then those of its members
    split at h
    · obtain ⟨own, hOwn, h⟩ := exists_of_bind_ok h
      have hBase := ownParts_wellKeyed hSchema hOwn
      split at h
      · rename_i members hMembers
        obtain ⟨total, hTotal, h⟩ := exists_of_bind_ok h
        cases h
        have hSmall := Value.field?_depth hMembers
        have hInside := wellKeyed_list.mp (field?_wellKeyed hSchema hMembers)
        exact (mergeMembers_wellKeyed own members hBase hInside hTotal).toSchema
      · obtain ⟨_, -, h⟩ := exists_of_bind_ok h
        cases h
        exact hBase.toSchema
      · cases h
        exact hBase.toSchema
    · cases h
  · cases h
    exact hSchema
termination_by (schema.depth, 0)
decreasing_by
  simp only [Prod.lex_def, Value.depth] at *
  omega

theorem mergeMembers_wellKeyed (parts : Merged) (members : List Value) {total : Merged}
    (hParts : parts.WellKeyed) (hMembers : ∀ v ∈ members, v.wellKeyed = true)
    (h : mergeMembers parts members = .ok total) : total.WellKeyed := by
  match members with
  | [] =>
    rw [mergeMembers] at h
    cases h
    exact hParts
  | member :: rest =>
    have hHead := hMembers member List.mem_cons_self
    have hRest : ∀ v ∈ rest, v.wellKeyed = true := fun v hv => hMembers v (List.mem_cons_of_mem _ hv)
    rw [mergeMembers] at h
    split at h
    · obtain ⟨merged, hMerged, h⟩ := exists_of_bind_ok h
      obtain ⟨own, hOwn, h⟩ := exists_of_bind_ok h
      have hMember := merge_wellKeyed member hHead hMerged
      exact mergeMembers_wellKeyed _ rest (hParts.add (ownParts_wellKeyed hMember hOwn)) hRest h
    · exact mergeMembers_wellKeyed parts rest hParts hRest h
termination_by (Value.itemsDepth members, members.length + 1)
decreasing_by all_goals simp only [Value.itemsDepth, Prod.lex_def, List.length_cons]; omega

end

-- ---------------------------------------------------------------------------
-- Parameters side by side
-- ---------------------------------------------------------------------------

/-- Parameters with different names. -/
def SiblingsApart (ps : List Parameter) : Prop := ps.Pairwise fun p q => (p.name == q.name) = false

/-- Inside a parameter, siblings have different names at every depth. -/
inductive Apart : Parameter → Prop
  | intro {p : Parameter} (hSiblings : SiblingsApart p.properties)
      (hInside : ∀ q ∈ p.properties, Apart q) : Apart p

/-- Parameters that have different names, and so have all siblings inside them. -/
structure AllApart (ps : List Parameter) : Prop where
  siblings : SiblingsApart ps
  inside   : ∀ p ∈ ps, Apart p

theorem allApart_nil : AllApart [] := ⟨List.Pairwise.nil, by simp⟩

theorem Apart.of_no_properties {p : Parameter} (h : p.properties = []) : Apart p := by
  constructor
  · rw [h]
    exact List.Pairwise.nil
  · rw [h]
    simp

theorem named_eq_false_iff {ps : List Parameter} {name : Value} :
    Parameter.named ps name = false ↔ ∀ p ∈ ps, (p.name == name) = false := by
  simp [Parameter.named]

/-- A parameter with a new name may stand after the others. -/
theorem AllApart.snoc {ps : List Parameter} {p : Parameter} (hps : AllApart ps) (hp : Apart p)
    (hNew : Parameter.named ps p.name = false) : AllApart (ps ++ [p]) := by
  constructor
  · unfold SiblingsApart
    rw [List.pairwise_append]
    refine ⟨hps.siblings, List.pairwise_singleton _ _, ?_⟩
    intro q hq p' hp'
    rw [List.mem_singleton.mp hp']
    exact named_eq_false_iff.mp hNew q hq
  · intro q hq
    rcases List.mem_append.mp hq with hq | hq
    · exact hps.inside q hq
    · rw [List.mem_singleton.mp hq]
      exact hp

-- ---------------------------------------------------------------------------
-- Properties of objects
-- ---------------------------------------------------------------------------

/-- The parameter for a property has the name of the property and the properties
of the merged schema, if it keeps any. -/
theorem exists_of_propertyParameter_ok {name schema : Value} {required : Bool} {p : Parameter}
    (h : (propertyParameter name schema required).outcome = .ok p) :
    p.name = name ∧ (p.properties = [] ∨ ∃ object entries names inside,
      merge schema = .ok object ∧ object.field? "properties" = some (.map entries) ∧
        (nestedParameters names schema.depth entries inside).outcome = .ok p.properties) := by
  -- the last steps fill in the other fields, whatever properties are kept
  have hTail : ∀ {kind properties} {x y : Journal Bool}, (if required = true then x >>= fun nullable =>
        (enumValues? schema : Journal _) >>= fun values => pure ⟨kind, nullable, name,
          cleanDescription? (schema.field? "description"), values, properties, none⟩
      else y >>= fun nullable =>
        (enumValues? schema : Journal _) >>= fun values => pure ⟨kind, nullable, name,
          cleanDescription? (schema.field? "description"), values, properties, none⟩).outcome =
      .ok p → p.name = name ∧ p.properties = properties := by
    intro kind properties x y hTail
    obtain ⟨nullable, -, hTail⟩ := Journal.exists_of_ite_bind_ok hTail
    obtain ⟨values, -, hTail⟩ := Journal.exists_of_bind_ok hTail
    cases hTail
    exact ⟨rfl, rfl⟩
  rw [propertyParameter] at h
  dsimp only at h
  obtain ⟨kind, -, h⟩ := Journal.exists_of_bind_ok h
  split at h
  · split at h
    · obtain ⟨_, hThrow, -⟩ := Journal.exists_of_bind_ok h
      cases hThrow
    · rename_i object hMerged
      obtain ⟨names, -, h⟩ := Journal.exists_of_bind_ok h
      split at h
      · rename_i entries hStated
        obtain ⟨properties, hProperties, h⟩ := Journal.exists_of_bind_ok h
        obtain ⟨hName, rfl⟩ := hTail h
        exact ⟨hName, Or.inr ⟨object, entries, names, _, hMerged, hStated, hProperties⟩⟩
      · split at h
        · obtain ⟨_, hThrow, -⟩ := Journal.exists_of_bind_ok h
          cases hThrow
        · exact ⟨(hTail h).1, Or.inl (hTail h).2⟩
      · exact ⟨(hTail h).1, Or.inl (hTail h).2⟩
  · exact ⟨(hTail h).1, Or.inl (hTail h).2⟩

/-- The parameters for the entries of an object are named after some of its keys. -/
theorem nestedParameters_names {required : List Value} {bound : Nat} {entries : Entries}
    {inside : ∀ e ∈ entries, e.2.depth < bound} {ps : List Parameter}
    (h : (nestedParameters required bound entries inside).outcome = .ok ps) :
    (ps.map Parameter.name).Sublist entries.keys ∧ ∀ p ∈ ps, ∃ e ∈ entries, ∃ r,
      (propertyParameter e.1 e.2 r).outcome = .ok p := by
  induction entries generalizing ps with
  | nil =>
    rw [nestedParameters] at h
    cases h
    exact ⟨List.Sublist.slnil, by simp⟩
  | cons e rest ih =>
    obtain ⟨name, schema⟩ := e
    rw [nestedParameters] at h
    split at h
    · simp only [Journal.outcome_bind] at h
      obtain ⟨first, hFirst, h⟩ := exists_of_bind_ok h
      obtain ⟨others, hOthers, h⟩ := exists_of_bind_ok h
      cases h
      obtain ⟨hNames, hEach⟩ := ih hOthers
      refine ⟨?_, ?_⟩
      · show (first.name :: others.map Parameter.name).Sublist (name :: Dictionary.keys rest)
        rw [(exists_of_propertyParameter_ok hFirst).1]
        exact hNames.cons_cons name
      · intro p hp
        rcases List.mem_cons.mp hp with rfl | hp
        · exact ⟨(name, schema), List.mem_cons_self, _, hFirst⟩
        · obtain ⟨e, he, r, hr⟩ := hEach p hp
          exact ⟨e, List.mem_cons_of_mem _ he, r, hr⟩
    · obtain ⟨hNames, hEach⟩ := ih h
      refine ⟨hNames.cons name, ?_⟩
      intro p hp
      obtain ⟨e, he, r, hr⟩ := hEach p hp
      exact ⟨e, List.mem_cons_of_mem _ he, r, hr⟩

/-- The parameter for a property has distinct siblings inside. -/
theorem propertyParameter_apart (name schema : Value) {required : Bool} {p : Parameter}
    (hSchema : schema.wellKeyed = true)
    (h : (propertyParameter name schema required).outcome = .ok p) : Apart p := by
  obtain ⟨-, hNone | ⟨object, entries, names, inside, hMerged, hStated, hNested⟩⟩ :=
    exists_of_propertyParameter_ok h
  · exact Apart.of_no_properties hNone
  · obtain ⟨hNames, hEach⟩ := nestedParameters_names hNested
    obtain ⟨hDistinct, hKeyed⟩ :=
      wellKeyed_map.mp (field?_wellKeyed (merge_wellKeyed schema hSchema hMerged) hStated)
    constructor
    · rw [Dictionary.distinct_iff_keys] at hDistinct
      exact List.pairwise_map.mp (hDistinct.sublist hNames)
    · intro q hq
      obtain ⟨e, he, r, hr⟩ := hEach q hq
      have hDeeper : e.2.depth < schema.depth := inside e he
      exact propertyParameter_apart e.1 e.2 (hKeyed e he).2 hr
termination_by schema.depth

-- ---------------------------------------------------------------------------
-- Request bodies
-- ---------------------------------------------------------------------------

theorem addParameter_apart {location : String} {ps qs : List Parameter} {p : Parameter}
    (hps : AllApart ps) (hp : Apart p) (h : (addParameter location ps p).outcome = .ok qs) :
    AllApart qs := by
  unfold addParameter at h
  split at h
  · cases h
    exact hps
  · rename_i hNew
    cases h
    exact hps.snoc hp (by simpa using hNew)

theorem addProperty_apart {location : String} {required : List Value} {ps qs : List Parameter}
    {property : Value × Value} (hps : AllApart ps) (hProperty : property.2.wellKeyed = true)
    (h : (addProperty location required ps property).outcome = .ok qs) : AllApart qs := by
  obtain ⟨name, schema⟩ := property
  unfold addProperty at h
  dsimp only at h
  split at h
  · cases h
    exact hps
  · obtain ⟨flattened, -, h⟩ := Journal.exists_of_bind_ok h
    split at h
    · -- the properties of a referenced object have no properties themselves
      rw [Journal.outcome_foldlM] at h
      refine foldlM_ok_induction AllApart hps ?_ h
      intro ps' child qs' _ hps' hStep
      obtain ⟨p, hp, hStep⟩ := Journal.exists_of_bind_ok hStep
      unfold flattenedParameter at hp
      obtain ⟨kind, -, hp⟩ := Journal.exists_of_bind_ok hp
      obtain ⟨values, -, hp⟩ := Journal.exists_of_bind_ok hp
      cases hp
      exact addParameter_apart hps' (Apart.of_no_properties rfl) hStep
    · obtain ⟨p, hp, h⟩ := Journal.exists_of_bind_ok h
      exact addParameter_apart hps (propertyParameter_apart _ _ hProperty hp) h

theorem bodyParameters_apart {schema : Value} {location : String} {ps : List Parameter}
    (hSchema : schema.wellKeyed = true) (h : (bodyParameters schema location).outcome = .ok ps) :
    AllApart ps := by
  unfold bodyParameters at h
  split at h
  · cases h
    exact allApart_nil
  · obtain ⟨kind, -, h⟩ := Journal.exists_of_bind_ok h
    split at h
    · cases h
      exact allApart_nil.snoc (Apart.of_no_properties rfl) rfl
    · obtain ⟨object, hMerged, h⟩ := Journal.exists_of_bind_ok h
      obtain ⟨required, -, h⟩ := Journal.exists_of_bind_ok h
      obtain ⟨stated, hStated, h⟩ := Journal.exists_of_bind_ok h
      obtain ⟨properties, hProperties, h⟩ := Journal.exists_of_bind_ok h
      have hObject := merge_wellKeyed schema hSchema hMerged
      have hOr : (Value.orElse stated .emptyMap).wellKeyed = true := by
        refine orElse_wellKeyed ?_ rfl
        rintro w rfl
        exact member_wellKeyed hObject hStated
      have hKeyed := (entries_wellKeyed hOr hProperties).2
      rw [Journal.outcome_foldlM] at h
      refine foldlM_ok_induction AllApart allApart_nil ?_ h
      intro ps' property qs' hMem hps' hStep
      exact addProperty_apart hps' (hKeyed property hMem).2 hStep

/-- A request body has the body parameters of one of the schemas in it, or none. -/
theorem requestBody_cases {body : Value} {location : String} {contentType : Option String}
    {ps : List Parameter} (h : (requestBody body location).outcome = .ok (contentType, ps)) :
    ps = [] ∨ ∃ schema, (body.wellKeyed = true → schema.wellKeyed = true) ∧
      (bodyParameters schema location).outcome = .ok ps := by
  unfold requestBody at h
  split at h
  · cases h
    exact Or.inl rfl
  · obtain ⟨chosen, -, h⟩ := Journal.exists_of_bind_ok h
    split at h
    · obtain ⟨part, hPart, h⟩ := Journal.exists_of_bind_ok h
      obtain ⟨schema, hSchema, h⟩ := Journal.exists_of_bind_ok h
      have hKeyed : body.wellKeyed = true → (Value.orElse (some part) .emptyMap).wellKeyed = true := by
        intro hBody
        have hContent : (Value.orElse (body.field? "content") .emptyMap).wellKeyed = true :=
          orElse_wellKeyed (fun w hw => field?_wellKeyed hBody hw) rfl
        refine orElse_wellKeyed ?_ rfl
        rintro w hw
        cases hw
        exact part_wellKeyed hContent hPart
      split at h
      · split at h
        · obtain ⟨parameters, hParameters, h⟩ := Journal.exists_of_bind_ok h
          cases h
          exact Or.inr ⟨_, fun hBody => member_wellKeyed (hKeyed hBody) hSchema, hParameters⟩
        · cases h
          exact Or.inl rfl
      · cases h
        exact Or.inl rfl
    · dsimp only at h
      split at h
      · obtain ⟨types, -, h⟩ := Journal.exists_of_bind_ok h
        split at h
        · cases h
          exact Or.inl rfl
        · obtain ⟨_, hThrow, -⟩ := Journal.exists_of_bind_ok h
          cases hThrow
      · cases h
        exact Or.inl rfl

/-- The parameters of a request body have distinct siblings. -/
theorem requestBody_apart {body : Value} {location : String} {contentType : Option String}
    {ps : List Parameter} (hBody : body.wellKeyed = true)
    (h : (requestBody body location).outcome = .ok (contentType, ps)) : AllApart ps := by
  rcases requestBody_cases h with rfl | ⟨schema, hKeyed, h⟩
  · exact allApart_nil
  · exact bodyParameters_apart (hKeyed hBody) h

-- ---------------------------------------------------------------------------
-- Names of body parameters
-- ---------------------------------------------------------------------------

section OwnNames

variable {location name : String} {required : List Value} {ps qs : List Parameter} {schema v : Value}

theorem addParameter_keeps {p : Parameter} (h : (addParameter location ps p).outcome = .ok qs)
    (hNamed : Parameter.named ps v = true) : Parameter.named qs v = true := by
  unfold addParameter at h
  split at h
  · cases h
    exact hNamed
  · cases h
    rw [Parameter.named, List.any_append, ← Parameter.named, hNamed, Bool.true_or]

theorem addParameter_named {p : Parameter} (hName : p.name = .str name)
    (h : (addParameter location ps p).outcome = .ok qs) : Parameter.named qs (.str name) = true := by
  unfold addParameter at h
  split at h
  · rename_i hNamed
    cases h
    rwa [hName] at hNamed
  · cases h
    rw [Parameter.named, List.any_append, Bool.or_eq_true]
    exact Or.inr (by simp [hName])

theorem addProperty_keeps {property : Value × Value} (hNamed : Parameter.named ps v = true)
    (h : (addProperty location required ps property).outcome = .ok qs) :
    Parameter.named qs v = true := by
  unfold addProperty at h
  dsimp only at h
  split at h
  · cases h
    exact hNamed
  · obtain ⟨flattened, -, h⟩ := Journal.exists_of_bind_ok h
    split at h
    · rw [Journal.outcome_foldlM] at h
      refine foldlM_ok_induction (Parameter.named · v = true) hNamed ?_ h
      intro ps' child qs' _ hNamed' hStep
      obtain ⟨p, -, hStep⟩ := Journal.exists_of_bind_ok hStep
      exact addParameter_keeps hStep hNamed'
    · obtain ⟨p, -, h⟩ := Journal.exists_of_bind_ok h
      exact addParameter_keeps h hNamed

/-- A property that refers to no schema is sent under its own name. -/
theorem addProperty_named (hSendable : isSendable schema = true) (hPlain : isReference schema = false)
    (h : (addProperty location required ps (.str name, schema)).outcome = .ok qs) :
    Parameter.named qs (.str name) = true := by
  have hNotFlattened : flattenedProperties? schema = .ok none := by
    rw [flattenedProperties?, hPlain]
    rfl
  unfold addProperty at h
  dsimp only at h
  rw [hSendable, hNotFlattened, Journal.lift_ok_bind] at h
  obtain ⟨p, hp, h⟩ := Journal.exists_of_bind_ok h
  exact addParameter_named (exists_of_propertyParameter_ok hp).1 h

theorem bodyParameters_named {entries : Entries} {property : Value}
    (hMapping : schema.field? "properties" = some (.map entries)) (hClosed : openRef? schema = none)
    (hMerged : merge schema = .ok schema) (hMem : (.str name, property) ∈ entries)
    (hSendable : isSendable property = true) (hPlain : isReference property = false)
    (h : (bodyParameters schema location).outcome = .ok ps) :
    Parameter.named ps (.str name) = true := by
  have hMember : schema.member "properties" = .ok (some (.map entries)) := by
    cases schema with
    | map _ => exact congrArg Except.ok hMapping
    | _ => cases hMapping
  have hEntries : (Value.orElse (some (.map entries)) .emptyMap).entries = .ok entries := by
    cases entries with
    | nil => rfl
    | cons _ _ => rfl
  unfold bodyParameters at h
  rw [hClosed] at h
  obtain ⟨kind, -, h⟩ := Journal.exists_of_bind_ok h
  rw [hMapping, Option.isNone_some, Bool.and_false, if_neg Bool.false_ne_true, hMerged] at h
  obtain ⟨_, hSame, h⟩ := Journal.exists_of_bind_ok h
  cases hSame
  obtain ⟨required, -, h⟩ := Journal.exists_of_bind_ok h
  rw [hMember, Journal.lift_ok_bind, hEntries, Journal.lift_ok_bind, Journal.outcome_foldlM] at h
  refine foldlM_ok_of_mem (Parameter.named · (.str name) = true) hMem ?_ ?_ h
  · intro _ _ hStep
    exact addProperty_named hSendable hPlain hStep
  · intro _ _ _ _ hNamed hStep
    exact addProperty_keeps hNamed hStep

end OwnNames

-- ---------------------------------------------------------------------------
-- Declared parameters
-- ---------------------------------------------------------------------------

/-- In each slot the declared parameters have different names. -/
def Declared.Apart (d : Declared) : Prop := ∀ slot, AllApart (d.get slot)

theorem Declared.get_append_self {d : Declared} {slot : Slot} {p : Parameter} (h : slot ≠ .body) :
    (d.append slot p).get slot = d.get slot ++ [p] := by
  cases slot with
  | body => exact absurd rfl h
  | _ => rfl

theorem Declared.get_append_of_ne {d : Declared} {slot slot' : Slot} {p : Parameter}
    (h : slot ≠ slot') : (d.append slot p).get slot' = d.get slot' := by
  cases slot <;> cases slot' <;> first | rfl | exact absurd rfl h

theorem declaredParameter_apart {name raw : Value} {p : Parameter}
    (h : (declaredParameter name raw).outcome = .ok p) : p.name = name ∧ Schema.Apart p := by
  unfold declaredParameter at h
  obtain ⟨kind, -, h⟩ := Journal.exists_of_bind_ok h
  obtain ⟨nullable, -, h⟩ := Journal.exists_of_ite_bind_ok h
  obtain ⟨values, -, h⟩ := Journal.exists_of_bind_ok h
  cases h
  exact ⟨rfl, Apart.of_no_properties rfl⟩

theorem ne_body_of_declarable {slot : Slot} (h : slot ∈ declarable) : slot ≠ .body := by
  rintro rfl
  exact absurd h (by decide)

/-- What a declaration does: to the slot that it is for it adds the parameter that it describes. If it is
for none, or its name is taken there, all stays as it was. -/
theorem declare_cases {location : String} {d d' : Declared} {raw : Value}
    (h : (Declared.declare location d raw).outcome = .ok d') :
    ∃ name place, raw.field? "name" = some name ∧ raw.field? "in" = some place ∧
      ((∀ slot ∈ declarable, place.isStr slot.name = false) ∧ d' = d ∨
        ∃ slot ∈ declarable, place.isStr slot.name = true ∧
          (Parameter.named (d.get slot) name = true ∧ d' = d ∨
            Parameter.named (d.get slot) name = false ∧
              ∃ p, (declaredParameter name raw).outcome = .ok p ∧ d' = d.append slot p)) := by
  unfold Declared.declare at h
  split at h
  · rename_i name place hName hPlace
    refine ⟨name, place, hName, hPlace, ?_⟩
    dsimp only at h
    split at h
    · obtain ⟨_, hThrow, -⟩ := Journal.exists_of_bind_ok h
      cases hThrow
    · split at h
      · rename_i hNone
        cases h
        exact Or.inl ⟨fun slot hSlot => by simpa using List.find?_eq_none.mp hNone slot hSlot, rfl⟩
      · rename_i slot hSlot
        have hHere : place.isStr slot.name = true := by simpa using List.find?_some hSlot
        refine Or.inr ⟨slot, List.mem_of_find?_eq_some hSlot, hHere, ?_⟩
        split at h
        · rename_i hTaken
          cases h
          exact Or.inl ⟨hTaken, rfl⟩
        · rename_i hNew
          obtain ⟨p, hp, h⟩ := Journal.exists_of_bind_ok h
          cases h
          exact Or.inr ⟨Bool.not_eq_true _ ▸ hNew, p, hp, rfl⟩
  · cases h

theorem declare_apart {location : String} {d d' : Declared} {raw : Value} (hd : d.Apart)
    (h : (Declared.declare location d raw).outcome = .ok d') : d'.Apart := by
  obtain ⟨name, place, -, -, ⟨-, rfl⟩ | ⟨slot, hSlot, -, ⟨-, rfl⟩ | ⟨hNew, p, hp, rfl⟩⟩⟩ := declare_cases h
  · exact hd
  · exact hd
  · obtain ⟨hName, hApart⟩ := declaredParameter_apart hp
    intro slot'
    by_cases hSame : slot = slot'
    · rw [← hSame, Declared.get_append_self (ne_body_of_declarable hSlot)]
      exact (hd slot).snoc hApart (by rw [hName]; exact hNew)
    · rw [Declared.get_append_of_ne hSame]
      exact hd slot'

/-- The declared parameters of an operation have different names in each slot. -/
theorem declaredParameters_apart {above own : Value} {location : String} {d : Declared}
    (h : (declaredParameters above own location).outcome = .ok d) : d.Apart := by
  unfold declaredParameters at h
  obtain ⟨first, -, h⟩ := Journal.exists_of_bind_ok h
  obtain ⟨second, -, h⟩ := Journal.exists_of_bind_ok h
  rw [Journal.outcome_foldlM] at h
  refine foldlM_ok_induction Declared.Apart ?_ ?_ h
  · intro slot
    cases slot <;> exact allApart_nil
  · intro d raw d' _ hd hStep
    exact declare_apart hd hStep

end ClientGen.Schema
