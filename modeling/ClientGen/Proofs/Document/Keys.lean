import ClientGen.Document.Depth
import ClientGen.Document.Order
import ClientGen.Proofs.Dictionary

/-!
# Well keyed values

A mapping of a document has scalars as keys and no two of them are the same. The
type of values does not say so, because a mapping is the list of its entries; the
readers of documents establish it. `wellKeyed` states it for a value and all that
is inside, and the lemmas carry it along the functions that take a value apart.

Keys are compared as data, and this comparison is reflexive and symmetric only on
some kinds of keys. What the passes over a document rely on are text keys, for
which being the same is being equal (`beq_str`); `TextsApart` is the part of
distinctness that speaks of them, and it does not depend on the order of keys.

Main results:

* `field?_wellKeyed` / `elements_wellKeyed` / `contribution_wellKeyed` — parts of
  a well keyed value are well keyed.
* `textsApart_of_distinct` / `TextsApart.perm` — text keys stay apart when the
  entries are sorted.
-/

namespace ClientGen.Document.Value

mutual

/-- Do all mappings in the value have scalars as keys, no two of them the same? -/
def wellKeyed : Value → Bool
  | .list items => itemsWellKeyed items
  | .set items => itemsWellKeyed items
  | .map entries => decide (Dictionary.Distinct entries) && entriesWellKeyed entries
  | _ => true

/-- Are all items well keyed? -/
def itemsWellKeyed : List Value → Bool
  | [] => true
  | v :: vs => wellKeyed v && itemsWellKeyed vs

/-- Are all keys scalars and all values well keyed? -/
def entriesWellKeyed : List (Value × Value) → Bool
  | [] => true
  | (k, v) :: es => k.canBeKey && wellKeyed v && entriesWellKeyed es

end

/-- The keys are scalars and the values well keyed. -/
def Keyed (entries : Entries) : Prop := ∀ e ∈ entries, e.1.canBeKey = true ∧ e.2.wellKeyed = true

theorem itemsWellKeyed_iff {items : List Value} :
    itemsWellKeyed items = true ↔ ∀ v ∈ items, v.wellKeyed = true := by
  induction items with
  | nil => simp [itemsWellKeyed]
  | cons v vs ih => simp [itemsWellKeyed, ih]

theorem entriesWellKeyed_iff {entries : Entries} :
    entriesWellKeyed entries = true ↔ Keyed entries := by
  unfold Keyed
  induction entries with
  | nil => simp [entriesWellKeyed]
  | cons e es ih =>
    obtain ⟨k, v⟩ := e
    simp [entriesWellKeyed, ih]

theorem wellKeyed_map {entries : Entries} :
    (Value.map entries).wellKeyed = true ↔ Dictionary.Distinct entries ∧ Keyed entries := by
  rw [wellKeyed, Bool.and_eq_true, decide_eq_true_iff, entriesWellKeyed_iff]

theorem wellKeyed_list {items : List Value} :
    (Value.list items).wellKeyed = true ↔ ∀ v ∈ items, v.wellKeyed = true := by
  rw [wellKeyed, itemsWellKeyed_iff]

/-- Scalars have no keys. -/
theorem wellKeyed_of_canBeKey {v : Value} (h : v.canBeKey = true) : v.wellKeyed = true := by
  cases v <;> first | rfl | cases h

-- ---------------------------------------------------------------------------
-- Taking a value apart
-- ---------------------------------------------------------------------------

theorem isMapping_of_field? {v w : Value} {name : String} (h : v.field? name = some w) :
    v.isMapping = true := by
  cases v with
  | map _ => rfl
  | _ => cases h

theorem member_of_isMapping {v : Value} (h : v.isMapping = true) (name : String) :
    v.member name = .ok (v.field? name) := by
  cases v with
  | map entries => rfl
  | _ => cases h

theorem orElse_some (v default : Value) :
    orElse (some v) default = if v.isTruthy then v else default := rfl

/-- A mapping that counts as false is the empty one. -/
theorem orElse_map (entries : Entries) : orElse (some (.map entries)) .emptyMap = .map entries := by
  cases entries <;> rfl

/-- Only a text is taken for a text. -/
theorem asText_ok {v : Value} {s : String} (h : v.asText = .ok s) : v = .str s := by
  cases v <;> cases h
  rfl

theorem field?_wellKeyed {v w : Value} {name : String} (hv : v.wellKeyed = true)
    (h : v.field? name = some w) : w.wellKeyed = true := by
  cases v with
  | map entries =>
    obtain ⟨e, he, -, rfl⟩ := Dictionary.exists_of_get? h
    exact ((wellKeyed_map.mp hv).2 e he).2
  | _ => cases h

theorem entries_wellKeyed {v : Value} {es : Entries} (hv : v.wellKeyed = true)
    (h : v.entries = .ok es) : Dictionary.Distinct es ∧ Keyed es := by
  cases v with
  | map entries =>
    cases h
    exact wellKeyed_map.mp hv
  | _ => cases h

theorem member_wellKeyed {v w : Value} {name : String} (hv : v.wellKeyed = true)
    (h : v.member name = .ok (some w)) : w.wellKeyed = true := by
  unfold member at h
  obtain ⟨es, hes, h⟩ := exists_of_bind_ok h
  obtain ⟨e, he, -, rfl⟩ := Dictionary.exists_of_get? (Except.ok.inj h)
  exact ((entries_wellKeyed hv hes).2 e he).2

theorem part_wellKeyed {v w : Value} {name : String} (hv : v.wellKeyed = true)
    (h : v.part name = .ok w) : w.wellKeyed = true := by
  cases v with
  | map entries =>
    simp only [part] at h
    cases hHeld : Dictionary.get? entries (.str name) with
    | none =>
      rw [hHeld] at h
      cases h
    | some held =>
      rw [hHeld] at h
      cases h
      exact field?_wellKeyed hv hHeld
  | _ => cases h

theorem orElse_wellKeyed {v : Option Value} {default : Value}
    (hv : ∀ w, v = some w → w.wellKeyed = true) (hDefault : default.wellKeyed = true) :
    (orElse v default).wellKeyed = true := by
  cases v with
  | none => exact hDefault
  | some w =>
    rw [orElse_some]
    split
    · exact hv w rfl
    · exact hDefault

theorem elements_wellKeyed {v : Value} {xs : List Value} (hv : v.wellKeyed = true)
    (h : v.elements = .ok xs) : ∀ x ∈ xs, x.wellKeyed = true := by
  intro x hx
  cases v with
  | list items =>
    cases h
    exact wellKeyed_list.mp hv x hx
  | set items =>
    cases h
    rw [wellKeyed, itemsWellKeyed_iff] at hv
    exact hv x hx
  | map entries =>
    cases h
    obtain ⟨e, he, rfl⟩ := List.mem_map.mp hx
    exact wellKeyed_of_canBeKey ((wellKeyed_map.mp hv).2 e he).1
  | str s =>
    cases h
    obtain ⟨c, -, rfl⟩ := List.mem_map.mp hx
    rfl
  | bytes bs =>
    cases h
    obtain ⟨b, -, rfl⟩ := List.mem_map.mp hx
    rfl
  | _ => cases h

theorem asEntry_wellKeyed {v : Value} {e : Value × Value} (hv : v.wellKeyed = true)
    (h : v.asEntry = .ok e) : e.1.canBeKey = true ∧ e.2.wellKeyed = true := by
  unfold asEntry at h
  obtain ⟨items, hItems, h⟩ := exists_of_bind_ok h
  have hInside := elements_wellKeyed hv hItems
  split at h
  · split at h
    · rename_i hKey
      cases h
      exact ⟨hKey, hInside _ (by simp)⟩
    · cases h
  · cases h

/-- What a well keyed value contributes to a mapping is well keyed, though two of
its items may contribute the same key. -/
theorem contribution_wellKeyed {v : Value} {es : Entries} (hv : v.wellKeyed = true)
    (h : v.contribution = .ok es) : Keyed es := by
  unfold contribution at h
  split at h
  · cases h
    exact (wellKeyed_map.mp hv).2
  · obtain ⟨items, hItems, h⟩ := exists_of_bind_ok h
    intro e he
    obtain ⟨x, hx, hEntry⟩ := exists_of_mem_mapM h e he
    exact asEntry_wellKeyed (elements_wellKeyed hv hItems x hx) hEntry

theorem Keyed.put {d : Entries} {k v : Value} (hd : Keyed d) (hk : k.canBeKey = true)
    (hv : v.wellKeyed = true) : Keyed (Dictionary.put d k v) := by
  induction d with
  | nil =>
    intro e he
    rw [List.mem_singleton.mp he]
    exact ⟨hk, hv⟩
  | cons f fs ih =>
    have hRest : Keyed fs := fun e he => hd e (List.mem_cons_of_mem _ he)
    have hHead := hd f List.mem_cons_self
    intro e he
    unfold Dictionary.put at he
    split at he
    · rcases List.mem_cons.mp he with rfl | he
      · exact ⟨hHead.1, hv⟩
      · exact hRest e he
    · rcases List.mem_cons.mp he with rfl | he
      · exact hHead
      · exact ih hRest e he

theorem Keyed.overlay {d top : Entries} (hd : Keyed d) (hTop : Keyed top) :
    Keyed (Dictionary.overlay d top) := by
  unfold Dictionary.overlay
  induction top generalizing d with
  | nil => exact hd
  | cons e es ih =>
    have hHead := hTop e List.mem_cons_self
    exact ih (hd.put hHead.1 hHead.2) fun f hf => hTop f (List.mem_cons_of_mem _ hf)

theorem Keyed.ofEntries {es : Entries} (h : Keyed es) : Keyed (Dictionary.ofEntries es) :=
  Keyed.overlay (d := []) (fun e he => by simp at he) h

-- ---------------------------------------------------------------------------
-- Text keys
-- ---------------------------------------------------------------------------

/-- Being the same as a text is being this text. -/
@[simp] theorem beq_str {v : Value} {s : String} : (v == .str s) = true ↔ v = .str s := by
  show same v (.str s) = true ↔ _
  cases v <;> simp [same, sameScalar]

/-- A text is the same as itself only. -/
theorem str_beq {v : Value} {s : String} : (Value.str s == v) = true ↔ v = .str s := by
  show same (.str s) v = true ↔ _
  cases v with
  | str t =>
    simp only [same, sameScalar, beq_iff_eq, Value.str.injEq]
    exact eq_comm
  | _ => simp [same, sameScalar]

/-- No text occurs twice among the keys. -/
def TextsApart (keys : List Value) : Prop :=
  keys.Pairwise fun k k' => ∀ s, k = .str s → k' ≠ .str s

theorem textsApart_of_distinct {es : Entries} (h : Dictionary.Distinct es) : TextsApart es.keys := by
  rw [Dictionary.distinct_iff_keys] at h
  refine h.imp ?_
  rintro k k' hDiffer s rfl rfl
  rw [beq_str.mpr rfl] at hDiffer
  cases hDiffer

/-- That texts are apart does not depend on the order of the keys. -/
theorem TextsApart.perm {keys keys' : List Value} (h : TextsApart keys) (hPerm : keys.Perm keys') :
    TextsApart keys' := by
  refine List.Pairwise.perm h hPerm ?_
  intro k k' hApart s hk' hk
  exact hApart s hk hk'

/-- Sorting looks at nothing but the keys. -/
theorem sortOn?_map {α β : Type} (key : β → Value) (f : α → β) (xs : List α) :
    sortOn? key (xs.map f) = (sortOn? (fun x => key (f x)) xs).map (List.map f) := by
  have hSorted := List.map_mergeSort (r := fun x y => !lt (key (f y)) (key (f x))) (f := f) (l := xs)
    (s := fun x y => !lt (key y) (key x)) (fun _ _ _ _ => rfl)
  rw [sortOn?, sortOn?, List.length_map, List.all_map]
  simp only [Function.comp_def, List.all_map, ← hSorted]
  split <;> rfl

theorem sortOn?_perm {α : Type} {key : α → Value} {xs ys : List α} (h : sortOn? key xs = some ys) :
    ys.Perm xs := by
  unfold sortOn? at h
  split at h
  · cases h
    exact List.mergeSort_perm _ _
  · cases h

end ClientGen.Document.Value
