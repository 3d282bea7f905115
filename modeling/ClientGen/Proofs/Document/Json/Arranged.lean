import ClientGen.Document.Order
import ClientGen.Proofs.Document.Keys
import ClientGen.Proofs.Sorting

/-!
# JSON values apart from the order of names

The order in which an object lists its names says nothing. `Same` compares values apart
from it, at every depth; numbers, truth values and texts are the same only as themselves,
so the integer 1, the double 1.0, `true` and the text 1 are four values. Arranging a value,
which puts the names of every object in order, makes the same values equal.

Main results:

* `same_iff` — JSON values are the same exactly when they are equal once arranged.
-/

namespace ClientGen.Document.Json

open ClientGen.Document.Value

-- ---------------------------------------------------------------------------
-- JSON values
-- ---------------------------------------------------------------------------

/-- The values of JSON: nothing, truth values, numbers, texts, lists of JSON values and
objects, which have texts as names and no name twice. -/
inductive IsJson : Value → Prop where
  | null : IsJson .null
  | bool (b : Bool) : IsJson (.bool b)
  | int (n : Int) : IsJson (.int n)
  | float (x : Double) : IsJson (.float x)
  | str (s : String) : IsJson (.str s)
  | list {items : List Value} (hItems : ∀ v ∈ items, IsJson v) : IsJson (.list items)
  | map {entries : Entries} (hDistinct : Dictionary.Distinct entries)
      (hNames : ∀ e ∈ entries, e.1.isText = true) (hValues : ∀ e ∈ entries, IsJson e.2) :
      IsJson (.map entries)

/-- The same value, apart from the order in which objects list their names. -/
inductive Same : Value → Value → Prop where
  | scalar {v : Value} (hScalar : v.canBeKey = true) : Same v v
  | list {vs ws : List Value} (hLength : vs.length = ws.length)
      (hItems : ∀ p ∈ vs.zip ws, Same p.1 p.2) : Same (.list vs) (.list ws)
  | map {es fs : Entries} (hNames : ∀ k, k ∈ es.keys ↔ k ∈ fs.keys)
      (hValues : ∀ e ∈ es, ∀ f ∈ fs, e.1 = f.1 → Same e.2 f.2) : Same (.map es) (.map fs)

/-- What is no list and no object is the same as itself only. -/
theorem Same.eq_of_scalar {v w : Value} (h : Same v w) (hv : v.canBeKey = true) : v = w := by
  cases h with
  | scalar _ => rfl
  | list _ _ => cases hv
  | map _ _ => cases hv

/-- The text of a name. -/
def nameText : Value → String
  | .str s => s
  | _ => ""

theorem eq_str_of_isText {k : Value} (h : k.isText = true) : k = .str (nameText k) := by
  cases k with
  | str s => rfl
  | _ => cases h

/-- Does the name of the first entry come before that of the second, or are they equal? -/
def nameLe {α : Type} (e f : Value × α) : Bool := decide (nameText e.1 ≤ nameText f.1)

mutual

/-- The value with the names of every object in order. -/
def arranged : Value → Value
  | .list items => .list (arrangedItems items)
  | .map entries => .map ((arrangedEntries entries).mergeSort nameLe)
  | v => v

/-- The items, each of them arranged. -/
def arrangedItems : List Value → List Value
  | [] => []
  | v :: vs => arranged v :: arrangedItems vs

/-- The entries with their values arranged. -/
def arrangedEntries : List (Value × Value) → List (Value × Value)
  | [] => []
  | (k, v) :: es => (k, arranged v) :: arrangedEntries es

end

/-- The entry with its value arranged. -/
def arrangedEntry (e : Value × Value) : Value × Value := (e.1, arranged e.2)

@[simp] theorem arrangedItems_eq (items : List Value) : arrangedItems items = items.map arranged := by
  induction items with
  | nil => rfl
  | cons v vs ih => rw [arrangedItems, ih, List.map_cons]

@[simp] theorem arrangedEntries_eq (entries : Entries) :
    arrangedEntries entries = entries.map arrangedEntry := by
  induction entries with
  | nil => rfl
  | cons e es ih => rw [arrangedEntries, ih, List.map_cons, arrangedEntry]

theorem arranged_scalar {v : Value} (h : v.canBeKey = true) : arranged v = v := by
  cases v with
  | list _ => cases h
  | map _ => cases h
  | _ => rfl

-- ---------------------------------------------------------------------------
-- Sorting by name
-- ---------------------------------------------------------------------------

section Sorting

variable {α β : Type}

/-- The entries have texts as names, and no name twice. -/
structure Named (entries : List (Value × α)) : Prop where
  texts : ∀ e ∈ entries, e.1.isText = true
  nodup : (entries.map (·.1)).Nodup

theorem named_of_distinct {entries : Entries} (hDistinct : Dictionary.Distinct entries)
    (hNames : ∀ e ∈ entries, e.1.isText = true) : Named entries := by
  refine ⟨hNames, ?_⟩
  rw [List.nodup_iff_pairwise_ne, List.pairwise_map]
  refine List.Pairwise.imp_of_mem ?_ hDistinct
  intro e f he _ hDiffer hSame
  rw [eq_str_of_isText (hNames e he)] at hDiffer hSame
  rw [← hSame, beq_str.mpr rfl] at hDiffer
  cases hDiffer

theorem Named.distinct {entries : Entries} (h : Named entries) : Dictionary.Distinct entries := by
  have hPairs := h.nodup
  rw [List.nodup_iff_pairwise_ne, List.pairwise_map] at hPairs
  refine hPairs.imp_of_mem ?_
  intro e f he _ hDiffer
  rw [eq_str_of_isText (h.texts e he)] at hDiffer ⊢
  rw [Bool.eq_false_iff]
  exact fun hSame => hDiffer (str_beq.mp hSame).symm

theorem Named.perm {es fs : List (Value × α)} (h : Named es) (hPerm : es.Perm fs) : Named fs :=
  ⟨fun f hf => h.texts f (hPerm.mem_iff.mpr hf), (hPerm.map _).nodup_iff.mp h.nodup⟩

/-- What happens to the values does not touch the names. -/
theorem Named.map {es : List (Value × α)} (h : Named es) {f : Value × α → Value × β}
    (hNames : ∀ e, (f e).1 = e.1) : Named (es.map f) := by
  refine ⟨?_, ?_⟩
  · intro e he
    obtain ⟨e, hMem, rfl⟩ := List.mem_map.mp he
    rw [hNames]
    exact h.texts e hMem
  · rw [List.map_map]
    simpa only [Function.comp_def, hNames] using h.nodup

/-- A name has one entry. -/
theorem Named.eq_of_mem {es : List (Value × α)} (h : Named es) {e f : Value × α} (he : e ∈ es)
    (hf : f ∈ es) (hSame : e.1 = f.1) : e = f :=
  List.inj_on_of_nodup_map h.nodup he hf hSame

/-- Entries are sorted by an order with one result. -/
theorem nameLe_linear (es : List (Value × α)) (h : Named es) : LinearOn nameLe (· ∈ es) where
  trans := fun _ _ _ => string_linear.trans _ _ _
  total := fun _ _ => string_linear.total _ _
  antisymm := by
    intro e f he hf hLe hGe
    have hText : nameText e.1 = nameText f.1 := string_linear.antisymm _ _ trivial trivial hLe hGe
    refine h.eq_of_mem he hf ?_
    rw [eq_str_of_isText (h.texts e he), eq_str_of_isText (h.texts f hf), hText]

/-- Entries that are rearranged are sorted into the same list. -/
theorem Named.sort_eq {es fs : List (Value × α)} (h : Named es) (hPerm : es.Perm fs) :
    es.mergeSort nameLe = fs.mergeSort nameLe :=
  mergeSort_eq_of_perm (nameLe_linear es h) (fun _ he => he) hPerm

/-- Sorting by name does not look at the values. -/
theorem sort_map {f : Value × α → Value × β} (hNames : ∀ e, (f e).1 = e.1) (es : List (Value × α)) :
    (es.map f).mergeSort nameLe = (es.mergeSort nameLe).map f := by
  refine (List.map_mergeSort ?_).symm
  intro e _ e' _
  simp only [nameLe, hNames]

theorem not_lt_of_texts {k k' : Value} (hk : k.isText = true) (hk' : k'.isText = true) :
    (!lt k' k) = decide (nameText k ≤ nameText k') := by
  obtain ⟨s, rfl⟩ : ∃ s, k = .str s := ⟨_, eq_str_of_isText hk⟩
  obtain ⟨t, rfl⟩ : ∃ t, k' = .str t := ⟨_, eq_str_of_isText hk'⟩
  rw [Bool.eq_iff_iff, decide_eq_true_iff]
  simp only [lt, nameText, Bool.not_eq_true', decide_eq_false_iff_not, String.not_lt]

/-- Texts have an order, and values are sorted by them as entries are sorted by name. -/
theorem sortOn?_names {es : List (Value × α)} (h : ∀ e ∈ es, e.1.isText = true) :
    sortOn? (·.1) es = some (es.mergeSort nameLe) := by
  have hComparable : (es.all fun x => es.all fun y => comparable x.1 y.1) = true := by
    simp only [List.all_eq_true]
    intro e he f hf
    rw [eq_str_of_isText (h e he), eq_str_of_isText (h f hf)]
    rfl
  have hSort : (es.mergeSort fun x y => !lt y.1 x.1) = es.mergeSort nameLe := by
    have hMap := List.map_mergeSort (r := fun x y : Value × α => !lt y.1 x.1) (s := nameLe) (f := id)
      (l := es) ?_
    · simpa using hMap
    · intro e he f hf
      exact not_lt_of_texts (h e he) (h f hf)
  rw [sortOn?, hComparable, Bool.or_true, if_pos rfl, hSort]

end Sorting

-- ---------------------------------------------------------------------------
-- The same value
-- ---------------------------------------------------------------------------

theorem IsJson.named {entries : Entries} (h : IsJson (.map entries)) : Named entries := by
  cases h with
  | map hDistinct hNames _ => exact named_of_distinct hDistinct hNames

theorem IsJson.arranged {v : Value} (h : IsJson v) : IsJson (arranged v) := by
  induction h with
  | @list items _ ih =>
    rw [Json.arranged, arrangedItems_eq]
    refine .list ?_
    intro w hw
    obtain ⟨v, hv, rfl⟩ := List.mem_map.mp hw
    exact ih v hv
  | @map entries hDistinct hNames _ ih =>
    have hNamed := (named_of_distinct hDistinct hNames).map (f := arrangedEntry) fun _ => rfl
    have hSorted := hNamed.perm (List.mergeSort_perm _ nameLe).symm
    rw [Json.arranged, arrangedEntries_eq]
    refine .map hSorted.distinct hSorted.texts ?_
    intro e he
    obtain ⟨e, hMem, rfl⟩ := List.mem_map.mp (List.mem_mergeSort.mp he)
    exact ih e hMem
  | null => exact .null
  | bool b => exact .bool b
  | int n => exact .int n
  | float x => exact .float x
  | str s => exact .str s

/-- Entries with the same names and the same values are, with their values arranged, the same
entries in some order. -/
theorem arrangedEntries_perm {es fs : Entries} (hes : Named es) (hfs : Named fs)
    (hNames : ∀ k, k ∈ es.keys ↔ k ∈ fs.keys)
    (hValues : ∀ e ∈ es, ∀ f ∈ fs, e.1 = f.1 → arranged e.2 = arranged f.2) :
    (es.map arrangedEntry).Perm (fs.map arrangedEntry) := by
  have hSub : ∀ {es fs : Entries}, (∀ k, k ∈ es.keys → k ∈ fs.keys) →
      (∀ e ∈ es, ∀ f ∈ fs, e.1 = f.1 → arranged e.2 = arranged f.2) →
      ∀ x ∈ es.map arrangedEntry, x ∈ fs.map arrangedEntry := by
    intro es fs hKeys hSame x hx
    obtain ⟨e, he, rfl⟩ := List.mem_map.mp hx
    obtain ⟨f, hf, hKey⟩ := List.mem_map.mp (hKeys e.1 (List.mem_map_of_mem he))
    refine List.mem_map.mpr ⟨f, hf, ?_⟩
    rw [arrangedEntry, arrangedEntry, hKey, hSame e he f hf hKey.symm]
  have hNodup : ∀ {es : Entries}, Named es → (es.map arrangedEntry).Nodup := by
    intro es h
    exact (h.map (f := arrangedEntry) fun _ => rfl).nodup.of_map _
  rw [List.perm_ext_iff_of_nodup (hNodup hes) (hNodup hfs)]
  intro x
  refine ⟨hSub (fun k => (hNames k).mp) hValues x, hSub (fun k => (hNames k).mpr) ?_ x⟩
  intro f hf e he hKey
  exact (hValues e he f hf hKey.symm).symm

/-- Values that are the same are equal once arranged. -/
theorem Same.arranged_eq {v w : Value} (h : Same v w) (hv : IsJson v) (hw : IsJson w) :
    arranged v = arranged w := by
  induction h with
  | scalar _ => rfl
  | @list vs ws hLength _ ih =>
    cases hv with
    | list hvs =>
      cases hw with
      | list hws =>
        rw [arranged, arranged, arrangedItems_eq, arrangedItems_eq]
        refine congrArg Value.list (List.ext_getElem (by simpa using hLength) ?_)
        intro i hi hj
        rw [List.getElem_map, List.getElem_map]
        rw [List.length_map] at hi hj
        refine ih (vs[i], ws[i]) ?_ (hvs _ (List.getElem_mem hi)) (hws _ (List.getElem_mem hj))
        exact List.mem_iff_getElem.mpr ⟨i, by rw [List.length_zip]; omega, List.getElem_zip⟩
  | @map es fs hNames _ ih =>
    have hPerm := arrangedEntries_perm hv.named hw.named hNames
    cases hv with
    | map hDistinct hTexts hes =>
      cases hw with
      | map hDistinct' hTexts' hfs =>
        have hNamed := (named_of_distinct hDistinct hTexts).map (f := arrangedEntry) fun _ => rfl
        rw [arranged, arranged, arrangedEntries_eq, arrangedEntries_eq]
        refine congrArg Value.map (hNamed.sort_eq (hPerm ?_))
        intro e he f hf hKey
        exact ih e he f hf hKey (hes e he) (hfs f hf)

/-- Arranging keeps the kind of a value. -/
theorem same_scalar {v w : Value} (hv : v.canBeKey = true) (h : v = arranged w) : Same v w := by
  have hEq : v = w := by
    cases w with
    | list items =>
      rw [h] at hv
      cases hv
    | map entries =>
      rw [h] at hv
      cases hv
    | _ => exact h
  rw [← hEq]
  exact .scalar hv

theorem exists_list_of_arranged {us : List Value} {w : Value} (h : Value.list us = arranged w) :
    ∃ ws, w = .list ws ∧ us = ws.map arranged := by
  cases w with
  | list ws =>
    rw [arranged, arrangedItems_eq, Value.list.injEq] at h
    exact ⟨ws, rfl, h⟩
  | _ => cases h

theorem exists_map_of_arranged {us : Entries} {w : Value} (h : Value.map us = arranged w) :
    ∃ fs, w = .map fs ∧ us = (fs.map arrangedEntry).mergeSort nameLe := by
  cases w with
  | map fs =>
    rw [arranged, arrangedEntries_eq, Value.map.injEq] at h
    exact ⟨fs, rfl, h⟩
  | _ => cases h

/-- JSON values that are equal once arranged are the same. -/
theorem same_of_arranged_eq {v w : Value} (hv : IsJson v) (hw : IsJson w)
    (h : arranged v = arranged w) : Same v w := by
  induction hv generalizing w with
  | @list vs _ ih =>
    rw [arranged, arrangedItems_eq] at h
    obtain ⟨ws, rfl, hItems⟩ := exists_list_of_arranged h
    cases hw with
    | list hws =>
      have hLength : vs.length = ws.length := by simpa using congrArg List.length hItems
      refine .list hLength ?_
      intro p hp
      obtain ⟨hFirst, hSecond⟩ := List.of_mem_zip hp
      refine ih p.1 hFirst (hws p.2 hSecond) ?_
      -- the two lists of arranged items are one list, so a pair stands at one place of it
      have hZip : ∀ q ∈ (vs.map arranged).zip (ws.map arranged), q.1 = q.2 := by
        rw [hItems]
        intro q hq
        obtain ⟨i, hi, rfl⟩ := List.mem_iff_getElem.mp hq
        rw [List.getElem_zip]
      rw [List.zip_map] at hZip
      exact hZip _ (List.mem_map_of_mem hp)
  | @map es hDistinct hTexts _ ih =>
    rw [arranged, arrangedEntries_eq] at h
    obtain ⟨fs, rfl, hSorted⟩ := exists_map_of_arranged h
    have hfs := hw.named
    have hPerm : (es.map arrangedEntry).Perm (fs.map arrangedEntry) :=
      (List.mergeSort_perm _ nameLe).symm.trans (hSorted ▸ List.mergeSort_perm _ nameLe)
    refine .map ?_ ?_
    · intro k
      have hKeys := (hPerm.map (·.1)).mem_iff (a := k)
      rw [List.map_map, List.map_map] at hKeys
      exact hKeys
    · intro e he f hf hKey
      obtain ⟨f', hf', hSame⟩ := List.mem_map.mp (hPerm.mem_iff.mp (List.mem_map_of_mem he))
      have hValue : arranged e.2 = arranged f'.2 := (congrArg Prod.snd hSame).symm
      have hOne : f' = f := hfs.eq_of_mem hf' hf ((congrArg Prod.fst hSame).trans hKey)
      cases hw with
      | map _ _ hws => exact ih e he (hws f hf) (hOne ▸ hValue)
  | null => exact same_scalar rfl h
  | bool b => exact same_scalar rfl h
  | int n => exact same_scalar rfl h
  | float x => exact same_scalar rfl h
  | str s => exact same_scalar rfl h

/-- **Same values.** JSON values are the same exactly when they are equal once arranged. -/
theorem same_iff {v w : Value} (hv : IsJson v) (hw : IsJson w) : Same v w ↔ arranged v = arranged w :=
  ⟨fun h => h.arranged_eq hv hw, same_of_arranged_eq hv hw⟩

theorem same_refl {v : Value} (hv : IsJson v) : Same v v := same_of_arranged_eq hv hv rfl

end ClientGen.Document.Json
