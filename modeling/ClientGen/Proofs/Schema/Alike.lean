import ClientGen.Api.Parameter
import ClientGen.Proofs.Document.Keys
import ClientGen.Proofs.Outcome
import ClientGen.Schema.Literals

/-!
# Schemas that differ in how they list literals

The order in which a schema lists its literal values, and how often it lists one of
them, is not part of what it says. `Alike` relates two values of a document that
differ in nothing but the lists at the key `enum`, which have the same members.

The relation goes along with every function that takes a schema apart, except that
an entry may be moved to another key: a mapping can also be given as a list of
pairs, and there a list in second place is no list of literals whatever stands in
first place. `ReadAlike` is what is left of `Alike` then, and it is enough, since
no schema is a list.

Main results:

* `Alike.field?` / `Alike.contribution` — parts of schemas that are alike are alike.
* `enumValues?_alike` — such schemas list the same literals.
-/

namespace ClientGen.Document.Value

/-- Related options are both empty, or both hold something and this is related. -/
theorem none_or_some_of_rel {α β : Type} {R : α → β → Prop} {x : Option α} {y : Option β}
    (h : Option.Rel R x y) :
    x = none ∧ y = none ∨ ∃ a b, x = some a ∧ y = some b ∧ R a b := by
  cases h with
  | none => exact Or.inl ⟨rfl, rfl⟩
  | some hParts => exact Or.inr ⟨_, _, rfl, rfl, hParts⟩

/-- The lists have the same members, in whatever order and number. -/
def SameMembers (vs ws : List Value) : Prop := ∀ v, v ∈ vs ↔ v ∈ ws

mutual

/-- The values differ in nothing but the order and repetition of members of the lists
at the key `enum`. -/
inductive Alike : Value → Value → Prop
  | refl (v : Value) : Alike v v
  | list {vs ws : List Value} (h : ItemsAlike vs ws) : Alike (.list vs) (.list ws)
  | map {es fs : List (Value × Value)} (h : EntriesAlike es fs) : Alike (.map es) (.map fs)

/-- The items of the lists are alike in pairs. -/
inductive ItemsAlike : List Value → List Value → Prop
  | nil : ItemsAlike [] []
  | cons {v w : Value} {vs ws : List Value} (head : Alike v w) (rest : ItemsAlike vs ws) :
      ItemsAlike (v :: vs) (w :: ws)

/-- The entries have the same keys in the same order, and their values are alike. -/
inductive EntriesAlike : List (Value × Value) → List (Value × Value) → Prop
  | nil : EntriesAlike [] []
  /-- a list at the key `enum` is left to the next case -/
  | cons {k v w : Value} {es fs : List (Value × Value)}
      (other : k = .str "enum" → ∀ items, v ≠ .list items) (head : Alike v w)
      (rest : EntriesAlike es fs) : EntriesAlike ((k, v) :: es) ((k, w) :: fs)
  | enum {vs ws : List Value} {es fs : List (Value × Value)} (head : SameMembers vs ws)
      (rest : EntriesAlike es fs) :
      EntriesAlike ((.str "enum", .list vs) :: es) ((.str "enum", .list ws) :: fs)

end

theorem SameMembers.eq_nil_iff {vs ws : List Value} (h : SameMembers vs ws) : vs = [] ↔ ws = [] := by
  rw [List.eq_nil_iff_forall_not_mem, List.eq_nil_iff_forall_not_mem]
  exact forall_congr' fun v => not_congr (h v)

theorem SameMembers.isEmpty_eq {vs ws : List Value} (h : SameMembers vs ws) :
    vs.isEmpty = ws.isEmpty := by
  rw [Bool.eq_iff_iff, List.isEmpty_iff, List.isEmpty_iff, h.eq_nil_iff]

theorem ItemsAlike.forall₂ {vs ws : List Value} (h : ItemsAlike vs ws) :
    List.Forall₂ Alike vs ws := by
  induction vs generalizing ws with
  | nil =>
    cases h
    exact List.Forall₂.nil
  | cons v vs ih =>
    cases h with
    | cons hHead hRest => exact List.Forall₂.cons hHead (ih hRest)

theorem alike_list {vs : List Value} {w : Value} (h : Alike (.list vs) w) :
    ∃ ws, w = .list ws ∧ List.Forall₂ Alike vs ws := by
  cases h with
  | refl => exact ⟨vs, rfl, List.forall₂_same.mpr fun v _ => Alike.refl v⟩
  | list hItems => exact ⟨_, rfl, hItems.forall₂⟩

/-- Keys are what they are. -/
theorem Alike.eq_of_canBeKey {v w : Value} (h : Alike v w) (hKey : v.canBeKey = true) : v = w := by
  cases h with
  | refl => rfl
  | _ => cases hKey

theorem Alike.isMapping_eq {v w : Value} (h : Alike v w) : v.isMapping = w.isMapping := by
  cases h <;> rfl

theorem Alike.isTruthy_eq {v w : Value} (h : Alike v w) : v.isTruthy = w.isTruthy := by
  cases h with
  | refl => rfl
  | list hItems => cases hItems <;> rfl
  | map hEntries => cases hEntries <;> rfl

-- ---------------------------------------------------------------------------
-- Members
-- ---------------------------------------------------------------------------

theorem EntriesAlike.keys_eq {es fs : List (Value × Value)} (h : EntriesAlike es fs) :
    Dictionary.keys es = Dictionary.keys fs := by
  unfold Dictionary.keys
  induction es generalizing fs with
  | nil =>
    cases h
    rfl
  | cons e es ih =>
    cases h with
    | cons _ _ hRest => rw [List.map_cons, List.map_cons, ih hRest]
    | enum _ hRest => rw [List.map_cons, List.map_cons, ih hRest]

/-- What stands at a key other than `enum` is alike. -/
theorem EntriesAlike.get? {es fs : Entries} {name : String} (h : EntriesAlike es fs)
    (hName : name ≠ "enum") :
    Option.Rel Alike (Dictionary.get? es (.str name)) (Dictionary.get? fs (.str name)) := by
  induction es generalizing fs with
  | nil =>
    cases h
    exact Option.Rel.none
  | cons e es ih =>
    cases h with
    | cons _ hHead hRest =>
      simp only [Dictionary.get?]
      split
      · exact Option.Rel.some hHead
      · exact ih hRest
    | enum _ hRest =>
      have hOther : (Value.str "enum" == Value.str name) ≠ true := by
        rw [ne_eq, beq_str, Value.str.injEq]
        exact hName.symm
      simp only [Dictionary.get?, hOther]
      exact ih hRest

/-- A list of literals has a counterpart with the same members. -/
theorem EntriesAlike.get?_enum {es fs : Entries} {vs : List Value} (h : EntriesAlike es fs)
    (hList : Dictionary.get? es (.str "enum") = some (.list vs)) :
    ∃ ws, Dictionary.get? fs (.str "enum") = some (.list ws) ∧ SameMembers vs ws := by
  induction es generalizing fs with
  | nil => cases hList
  | cons e es ih =>
    cases h with
    | cons hOther _ hRest =>
      simp only [Dictionary.get?] at hList ⊢
      split at hList
      · rename_i hKey
        exact absurd (Option.some.inj hList) (hOther (beq_str.mp hKey) vs)
      · rename_i hKey
        rw [if_neg hKey]
        exact ih hRest hList
    | enum hSame _ =>
      have hKey : (Value.str "enum" == Value.str "enum") = true := beq_str.mpr rfl
      simp only [Dictionary.get?, hKey, if_true] at hList ⊢
      cases hList
      exact ⟨_, rfl, hSame⟩

mutual

theorem Alike.symm {v w : Value} (h : Alike v w) : Alike w v := by
  cases h with
  | refl => exact Alike.refl _
  | list hItems => exact Alike.list hItems.symm
  | map hEntries => exact Alike.map hEntries.symm

theorem ItemsAlike.symm {vs ws : List Value} (h : ItemsAlike vs ws) : ItemsAlike ws vs := by
  cases h with
  | nil => exact ItemsAlike.nil
  | cons hHead hRest => exact ItemsAlike.cons hHead.symm hRest.symm

theorem EntriesAlike.symm {es fs : List (Value × Value)} (h : EntriesAlike es fs) :
    EntriesAlike fs es := by
  cases h with
  | nil => exact EntriesAlike.nil
  | cons hOther hHead hRest =>
    refine EntriesAlike.cons ?_ hHead.symm hRest.symm
    rintro hKey items rfl
    obtain ⟨items', hList, -⟩ := alike_list hHead.symm
    exact hOther hKey items' hList
  | enum hSame hRest => exact EntriesAlike.enum (fun v => (hSame v).symm) hRest.symm

end

theorem Alike.field? {v w : Value} {name : String} (h : Alike v w) (hName : name ≠ "enum") :
    Option.Rel Alike (v.field? name) (w.field? name) := by
  cases h with
  | refl =>
    cases v.field? name with
    | none => exact Option.Rel.none
    | some part => exact Option.Rel.some (Alike.refl part)
  | list => exact Option.Rel.none
  | map hEntries => exact hEntries.get? hName

theorem Alike.field?_enum {v w : Value} {vs : List Value} (h : Alike v w)
    (hList : v.field? "enum" = some (.list vs)) :
    ∃ ws, w.field? "enum" = some (.list ws) ∧ SameMembers vs ws := by
  cases h with
  | refl => exact ⟨vs, hList, fun _ => Iff.rfl⟩
  | list => cases hList
  | map hEntries => exact hEntries.get?_enum hList

theorem orElse_alike {v w : Option Value} (h : Option.Rel Alike v w) (default : Value) :
    Alike (orElse v default) (orElse w default) := by
  cases h with
  | none => exact Alike.refl default
  | some hPart =>
    simp only [orElse, hPart.isTruthy_eq]
    split
    · exact hPart
    · exact Alike.refl default

-- ---------------------------------------------------------------------------
-- Items and entries
-- ---------------------------------------------------------------------------

theorem Alike.elements {v w : Value} (h : Alike v w) {vs : List Value} (hv : v.elements = .ok vs) :
    ∃ ws, w.elements = .ok ws ∧ List.Forall₂ Alike vs ws := by
  have hRefl : ∀ items : List Value, List.Forall₂ Alike items items := by
    intro items
    exact List.forall₂_same.mpr fun item _ => Alike.refl item
  cases h with
  | refl => exact ⟨vs, hv, hRefl vs⟩
  | list hItems =>
    cases hv
    exact ⟨_, rfl, hItems.forall₂⟩
  | map hEntries =>
    cases hv
    refine ⟨_, rfl, ?_⟩
    rw [hEntries.keys_eq]
    exact hRefl _

/-- To a reader of schemas the values are alike. -/
inductive ReadAlike : Value → Value → Prop
  | alike {v w : Value} (h : Alike v w) : ReadAlike v w
  /-- lists have no members to be read -/
  | lists (vs ws : List Value) : ReadAlike (.list vs) (.list ws)

/-- The entries have the same key and, to a reader of schemas, values that are alike. -/
structure EntryAlike (e f : Value × Value) : Prop where
  key   : e.1 = f.1
  value : ReadAlike e.2 f.2

theorem EntriesAlike.forall₂ {es fs : List (Value × Value)} (h : EntriesAlike es fs) :
    List.Forall₂ EntryAlike es fs := by
  induction es generalizing fs with
  | nil =>
    cases h
    exact List.Forall₂.nil
  | cons e es ih =>
    cases h with
    | cons _ hHead hRest => exact List.Forall₂.cons ⟨rfl, ReadAlike.alike hHead⟩ (ih hRest)
    | enum _ hRest => exact List.Forall₂.cons ⟨rfl, ReadAlike.lists _ _⟩ (ih hRest)

theorem Alike.asEntry {v w : Value} (h : Alike v w) {e : Value × Value} (hv : v.asEntry = .ok e) :
    ∃ f, w.asEntry = .ok f ∧ EntryAlike e f := by
  unfold Value.asEntry at hv ⊢
  obtain ⟨items, hItems, hv⟩ := exists_of_bind_ok hv
  obtain ⟨items', hItems', hBoth⟩ := h.elements hItems
  rw [hItems', ok_bind]
  split at hv
  · rename_i k u
    split at hv
    · rename_i hKey
      cases hv
      cases hBoth with
      | cons hFirst hRest =>
        cases hRest with
        | cons hSecond hNil =>
          cases hNil
          obtain rfl := hFirst.eq_of_canBeKey hKey
          simp only [hKey, if_true]
          exact ⟨_, rfl, rfl, ReadAlike.alike hSecond⟩
    · cases hv
  · cases hv

/-- Values that are alike contribute entries that are, to a reader of schemas. -/
theorem Alike.contribution {v w : Value} (h : Alike v w) {es : Entries}
    (hv : v.contribution = .ok es) :
    ∃ fs, w.contribution = .ok fs ∧ List.Forall₂ EntryAlike es fs := by
  have hMapping : v.isMapping = true →
      ∃ fs, w.contribution = .ok fs ∧ List.Forall₂ EntryAlike es fs := by
    intro hMap
    cases h with
    | refl => exact ⟨es, hv, List.forall₂_same.mpr fun e _ => ⟨rfl, ReadAlike.alike (Alike.refl _)⟩⟩
    | list => cases hMap
    | map hEntries =>
      cases hv
      exact ⟨_, rfl, hEntries.forall₂⟩
  have hOther : ∀ u : Value, u.isMapping = false →
      u.contribution = u.elements >>= fun items => items.mapM Value.asEntry := by
    intro u hMap
    cases u <;> first | rfl | cases hMap
  by_cases hMap : v.isMapping = true
  · exact hMapping hMap
  · rw [Bool.not_eq_true] at hMap
    rw [hOther v hMap] at hv
    rw [hOther w (h.isMapping_eq ▸ hMap)]
    obtain ⟨items, hItems, hv⟩ := exists_of_bind_ok hv
    obtain ⟨items', hItems', hBoth⟩ := h.elements hItems
    rw [hItems', ok_bind]
    exact exists_mapM_ok_of_forall₂ hBoth (fun _ _ _ hItem => hItem.asEntry) hv

theorem put_alike {d d' : Entries} {e f : Value × Value} (hd : List.Forall₂ EntryAlike d d')
    (he : EntryAlike e f) :
    List.Forall₂ EntryAlike (Dictionary.put d e.1 e.2) (Dictionary.put d' f.1 f.2) := by
  induction hd with
  | nil => exact List.Forall₂.cons ⟨he.key, he.value⟩ List.Forall₂.nil
  | cons hHead hRest ih =>
    rw [← he.key] at ih ⊢
    simp only [Dictionary.put, hHead.key]
    split
    · exact List.Forall₂.cons ⟨rfl, he.value⟩ hRest
    · exact List.Forall₂.cons ⟨rfl, hHead.value⟩ ih

theorem overlay_alike {d d' top top' : Entries} (hd : List.Forall₂ EntryAlike d d')
    (hTop : List.Forall₂ EntryAlike top top') :
    List.Forall₂ EntryAlike (Dictionary.overlay d top) (Dictionary.overlay d' top') := by
  unfold Dictionary.overlay
  induction hTop generalizing d d' with
  | nil => exact hd
  | cons hHead _ ih => exact ih (put_alike hd hHead)

end ClientGen.Document.Value

namespace ClientGen.Schema

open ClientGen.Document ClientGen.Document.Value

-- ---------------------------------------------------------------------------
-- Literals
-- ---------------------------------------------------------------------------

theorem literals?_alike {vs ws : List Value} (h : SameMembers vs ws) :
    Option.Rel SameMembers (literals? vs) (literals? ws) := by
  have hFiltered : ∀ p : Value → Bool, SameMembers (vs.filter p) (ws.filter p) := by
    intro p v
    rw [List.mem_filter, List.mem_filter, h v]
  unfold literals?
  split
  · rename_i hNil
    rw [(hFiltered _).eq_nil_iff.mp hNil]
    exact Option.Rel.none
  · rename_i hSome
    split
    · rename_i hNil
      exact absurd ((hFiltered _).eq_nil_iff.mpr hNil) hSome
    · exact Option.Rel.some (hFiltered _)

theorem enumValues?_of_list {schema : Value} {values : List Value}
    (h : schema.field? "enum" = some (.list values)) :
    enumValues? schema = .ok (literals? values) := by
  rw [enumValues?, h]

section NoList

variable {schema : Value} (hNoList : ∀ values, schema.field? "enum" ≠ some (.list values))
include hNoList

theorem enumValues?_of_no_members (h : schema.field? "allOf" = none) :
    enumValues? schema = .ok none := by
  rw [enumValues?]
  split
  · rename_i values hList
    exact absurd hList (hNoList values)
  · split <;> simp_all

/-- Without a list of its own a schema has the literals of its members. -/
theorem enumValues?_of_members {members : List Value}
    (h : schema.field? "allOf" = some (.list members)) :
    enumValues? schema = firstEnum? members := by
  rw [enumValues?]
  split
  · rename_i values hList
    exact absurd hList (hNoList values)
  · split <;> simp_all

/-- It has none if its members are no list, though they have to be something with items. -/
theorem enumValues?_of_other {other : Value} (h : schema.field? "allOf" = some other)
    (hOther : ∀ items, other ≠ .list items) :
    enumValues? schema = other.elements >>= fun _ => .ok none := by
  rw [enumValues?]
  split
  · rename_i values hList
    exact absurd hList (hNoList values)
  · split
    · rename_i hNone
      rw [h] at hNone
      cases hNone
    · rename_i members hList
      rw [h] at hList
      exact absurd (Option.some.inj hList) (hOther members)
    · rename_i hSome
      rw [h] at hSome
      rw [Option.some.inj hSome]
      rfl

end NoList

mutual

/-- Schemas that are alike list the same literals. -/
theorem enumValues?_alike {v w : Value} (h : Alike v w) {vs : Option (List Value)}
    (hv : enumValues? v = .ok vs) :
    ∃ ws, enumValues? w = .ok ws ∧ Option.Rel SameMembers vs ws := by
  by_cases hOwn : ∃ items, v.field? "enum" = some (.list items)
  · -- a list of its own decides, whatever the members list
    obtain ⟨items, hList⟩ := hOwn
    obtain ⟨items', hList', hSame⟩ := h.field?_enum hList
    rw [enumValues?_of_list hList] at hv
    cases hv
    exact ⟨_, enumValues?_of_list hList', literals?_alike hSame⟩
  · have hNoList : ∀ items, v.field? "enum" ≠ some (.list items) := by
      intro items hList
      exact hOwn ⟨items, hList⟩
    -- then the other schema has no list of its own either
    have hNoList' : ∀ items, w.field? "enum" ≠ some (.list items) := by
      intro items hList
      obtain ⟨items', hList', -⟩ := h.symm.field?_enum hList
      exact hNoList items' hList'
    rcases none_or_some_of_rel (h.field? (by decide : "allOf" ≠ "enum")) with
      ⟨hField, hField'⟩ | ⟨composed, composed', hField, hField', hMembers⟩
    · rw [enumValues?_of_no_members hNoList hField] at hv
      cases hv
      exact ⟨none, enumValues?_of_no_members hNoList' hField', Option.Rel.none⟩
    · by_cases hItems : ∃ items, composed = .list items
      · obtain ⟨items, rfl⟩ := hItems
        obtain ⟨items', rfl, hBoth⟩ := alike_list hMembers
        have hBound : itemsDepth items < v.depth := by
          have hDepth := field?_depth hField
          rw [depth] at hDepth
          omega
        rw [enumValues?_of_members hNoList hField] at hv
        rw [enumValues?_of_members hNoList' hField']
        exact firstEnum?_alike hBoth hv
      · have hNoItems : ∀ items, composed ≠ .list items := by
          rintro items rfl
          exact hItems ⟨items, rfl⟩
        have hNoItems' : ∀ items, composed' ≠ .list items := by
          rintro items rfl
          obtain ⟨items', hList, -⟩ := alike_list hMembers.symm
          exact hNoItems items' hList
        rw [enumValues?_of_other hNoList hField hNoItems] at hv
        obtain ⟨items, hElements, hv⟩ := exists_of_bind_ok hv
        cases hv
        obtain ⟨items', hElements', -⟩ := hMembers.elements hElements
        rw [enumValues?_of_other hNoList' hField' hNoItems', hElements', ok_bind]
        exact ⟨none, rfl, Option.Rel.none⟩
termination_by (v.depth, 0)

/-- So do lists of schemas that are alike. -/
theorem firstEnum?_alike {xs ys : List Value} (h : List.Forall₂ Alike xs ys)
    {vs : Option (List Value)} (hv : firstEnum? xs = .ok vs) :
    ∃ ws, firstEnum? ys = .ok ws ∧ Option.Rel SameMembers vs ws := by
  match xs, ys, h with
  | [], [], List.Forall₂.nil =>
    rw [firstEnum?] at hv ⊢
    cases hv
    exact ⟨none, rfl, Option.Rel.none⟩
  | x :: xs, y :: ys, List.Forall₂.cons hHead hRest =>
    rw [firstEnum?] at hv ⊢
    obtain ⟨found, hFound, hv⟩ := exists_of_bind_ok hv
    obtain ⟨found', hFound', hSame⟩ := enumValues?_alike hHead hFound
    rw [hFound', ok_bind]
    cases hSame with
    | none => exact firstEnum?_alike hRest hv
    | some hValues =>
      cases hv
      exact ⟨_, rfl, Option.Rel.some hValues⟩
termination_by (itemsDepth xs, xs.length + 1)
decreasing_by all_goals simp only [itemsDepth, Prod.lex_def, List.length_cons]; omega

end

/-- What a reader of schemas takes for alike lists the same literals as well. -/
theorem enumValues?_readAlike {v w : Value} (h : ReadAlike v w) {vs : Option (List Value)}
    (hv : enumValues? v = .ok vs) :
    ∃ ws, enumValues? w = .ok ws ∧ Option.Rel SameMembers vs ws := by
  cases h with
  | alike h => exact enumValues?_alike h hv
  | lists items items' =>
    have hNone : ∀ items, enumValues? (.list items) = .ok none := by
      intro items
      exact enumValues?_of_no_members (fun values hList => by cases hList) rfl
    rw [hNone] at hv
    cases hv
    exact ⟨none, hNone items', Option.Rel.none⟩

theorem cleanDescription?_readAlike {v w : Value} (h : ReadAlike v w) :
    Api.cleanDescription? (v.field? "description") =
      Api.cleanDescription? (w.field? "description") := by
  cases h with
  | alike h =>
    rcases none_or_some_of_rel (h.field? (by decide : "description" ≠ "enum")) with
      ⟨hPart, hPart'⟩ | ⟨part, part', hPart, hPart', hAlike⟩
    · rw [hPart, hPart']
    · rw [hPart, hPart']
      cases hAlike <;> rfl
  | lists => rfl

end ClientGen.Schema
