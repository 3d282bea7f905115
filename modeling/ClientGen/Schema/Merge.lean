import ClientGen.Document.Depth

/-!
# Merging composed schemas

A schema with `allOf` stands for one object schema: the properties of its members are laid over its
own in order, and their required names follow its own. `merge_depth` says that the properties of the
result lie deeper inside the schema, so a recursion into them ends.
-/

namespace ClientGen.Schema

open ClientGen.Document

/-- What a schema and its members contribute to the merged object. -/
structure Merged where
  properties : Entries
  required : List Value

/-- The object schema of merged parts. -/
def Merged.toSchema (m : Merged) : Value :=
  .map [(.str "type", .str "object"), (.str "properties", .map m.properties),
    (.str "required", .list m.required)]

/-- The properties and required names that a schema states itself. -/
def ownParts (schema : Value) : Except Fault Merged := do
  let properties ← ((schema.field? "properties").getD .emptyMap).contribution
  let required ← ((schema.field? "required").getD (.list [])).elements
  return ⟨Dictionary.ofEntries properties, required⟩

/-- Lay further parts over the ones so far. -/
def Merged.add (m n : Merged) : Merged :=
  ⟨Dictionary.overlay m.properties n.properties, m.required ++ n.required⟩

mutual

/-- The schema with its composition collapsed into one object schema. A schema without `allOf` stays as
it is. -/
def merge (schema : Value) : Except Fault Value := do
  if ← schema.mentions "allOf" then
    if schema.isMapping then
      let own ← ownParts schema
      match _allOf : schema.field? "allOf" with
      | some (.list members) => return (← mergeMembers own members).toSchema
      | some other =>
        let _ ← other.elements
        return own.toSchema
      | none => return own.toSchema
    else throw (.misuse .member)
  else return schema
termination_by (schema.depth, 0)
decreasing_by
  have := Value.field?_depth _allOf
  simp only [Value.depth] at this
  simp only [Prod.lex_def]
  omega

/-- Lay the members of a composition over the parts so far. What is no mapping is passed over. -/
def mergeMembers (parts : Merged) (members : List Value) : Except Fault Merged :=
  match members with
  | [] => .ok parts
  | member :: rest =>
    if member.isMapping then do
      let merged ← merge member
      mergeMembers (parts.add (← ownParts merged)) rest
    else mergeMembers parts rest
termination_by (Value.itemsDepth members, members.length + 1)
decreasing_by all_goals simp only [Value.itemsDepth, Prod.lex_def, List.length_cons]; omega

end

/-- All values that the `properties` of a schema contribute are less deep than `bound`. -/
def Inside (bound : Nat) (schema : Value) : Prop :=
  ∀ p, schema.field? "properties" = some p → ∀ es, p.contribution = .ok es →
    ∀ e ∈ es, e.2.depth < bound

/-- All properties of merged parts are less deep than `bound`. -/
def Merged.Inside (bound : Nat) (m : Merged) : Prop := ∀ e ∈ m.properties, e.2.depth < bound

theorem inside_depth (schema : Value) : Inside schema.depth schema := by
  intro p hp es hes e he
  exact Nat.lt_of_le_of_lt (Value.contribution_depth hes e he) (Value.field?_depth hp)

theorem Inside.mono {a b : Nat} {schema : Value} (h : Inside a schema) (hab : a ≤ b) :
    Inside b schema :=
  fun p hp es hes e he => Nat.lt_of_lt_of_le (h p hp es hes e he) hab

theorem ownParts_inside {schema : Value} {parts : Merged} {bound : Nat} (inside : Inside bound schema)
    (h : ownParts schema = .ok parts) : parts.Inside bound := by
  unfold ownParts at h
  obtain ⟨properties, hp, h⟩ := exists_of_bind_ok h
  obtain ⟨required, _, h⟩ := exists_of_bind_ok h
  cases h
  intro e he
  rcases Value.mem_overlay he with he | ⟨f, hf, hef⟩
  · simp at he
  · rw [hef]
    -- Without `properties` the schema contributes nothing, so there is no such entry.
    cases hs : schema.field? "properties" with
    | none =>
      simp only [hs, Option.getD_none, Value.emptyMap, Value.contribution] at hp
      cases hp
      simp at hf
    | some p =>
      simp only [hs, Option.getD_some] at hp
      exact inside p hs _ hp f hf

theorem Merged.Inside.add {m n : Merged} {bound : Nat} (hm : m.Inside bound) (hn : n.Inside bound) :
    (m.add n).Inside bound := by
  intro e he
  rcases Value.mem_overlay he with he | ⟨f, hf, hef⟩
  · exact hm e he
  · rw [hef]
    exact hn f hf

theorem Merged.Inside.toSchema {m : Merged} {bound : Nat} (h : m.Inside bound) :
    Schema.Inside bound m.toSchema := by
  intro p hp es hes
  have : p = .map m.properties := by
    simpa [Merged.toSchema, Value.field?, Dictionary.get?, BEq.beq, Value.same, Value.sameScalar]
      using hp.symm
  subst this
  cases hes
  exact h

mutual

/-- The properties of a merged schema are less deep than the schema. -/
theorem merge_depth (schema : Value) {merged : Value} (h : merge schema = .ok merged) :
    Inside schema.depth merged := by
  rw [merge] at h
  obtain ⟨mentioned, _, h⟩ := exists_of_bind_ok h
  split at h
  · -- A composition: what the schema states itself lies inside it, and so does each member.
    split at h
    · obtain ⟨own, ho, h⟩ := exists_of_bind_ok h
      have base := ownParts_inside (inside_depth schema) ho
      split at h
      · rename_i members hf
        obtain ⟨total, ht, h⟩ := exists_of_bind_ok h
        cases h
        have small := Value.field?_depth hf
        simp only [Value.depth] at small
        exact (mergeMembers_depth own members base (by omega) ht).toSchema
      · obtain ⟨_, _, h⟩ := exists_of_bind_ok h
        cases h
        exact base.toSchema
      · cases h
        exact base.toSchema
    · cases h
  · cases h
    exact inside_depth schema
termination_by (schema.depth, 0)
decreasing_by
  simp only [Prod.lex_def, Value.depth] at *
  omega

theorem mergeMembers_depth (parts : Merged) (members : List Value) {total : Merged} {bound : Nat}
    (inside : parts.Inside bound) (small : Value.itemsDepth members ≤ bound)
    (h : mergeMembers parts members = .ok total) : total.Inside bound := by
  match members with
  | [] =>
    rw [mergeMembers] at h
    cases h
    exact inside
  | member :: rest =>
    simp only [Value.itemsDepth] at small
    rw [mergeMembers] at h
    split at h
    · obtain ⟨merged, hm, h⟩ := exists_of_bind_ok h
      obtain ⟨own, ho, h⟩ := exists_of_bind_ok h
      have deep := (merge_depth member hm).mono (b := bound) (by omega)
      exact mergeMembers_depth _ rest (inside.add (ownParts_inside deep ho)) (by omega) h
    · exact mergeMembers_depth parts rest inside (by omega) h
termination_by (Value.itemsDepth members, members.length + 1)
decreasing_by all_goals simp only [Value.itemsDepth, Prod.lex_def, List.length_cons]; omega

end

end ClientGen.Schema
