import ClientGen.Dictionary
import Mathlib.Data.List.Nodup
import Mathlib.Data.List.Perm.Basic

/-!
# Dictionaries with distinct keys

Side tables are filled by putting one entry after the other. As long as no key
is put twice nothing is overwritten, and the table is the list of its entries in
the order in which they came. `Distinct` states this without any law of key
equality, because keys taken from a document are compared as data; the lemmas
for text keys follow.

Main results:

* `ofEntries_eq_self` — putting entries with distinct keys loses none of them.
* `get?_of_mem` — with distinct keys every entry is found under its key.
* `overlay_distinct` — whatever is put, the keys stay distinct.
* `Alongside.get?_cases` — in dictionaries with the same keys in the same order the same keys
  are found.
-/

namespace ClientGen.Dictionary

variable {κ ν : Type} [BEq κ]

/-- No two entries have the same key. -/
def Distinct (d : Dictionary κ ν) : Prop := d.Pairwise fun e f => (e.1 == f.1) = false

instance (d : Dictionary κ ν) : Decidable d.Distinct :=
  inferInstanceAs (Decidable (List.Pairwise _ d))

omit [BEq κ] in
theorem keys_append (d d' : Dictionary κ ν) : keys (d ++ d') = d.keys ++ d'.keys := List.map_append

omit [BEq κ] in
theorem values_snoc (d : Dictionary κ ν) (k : κ) (v : ν) : values (d ++ [(k, v)]) = d.values ++ [v] :=
  List.map_append

-- ---------------------------------------------------------------------------
-- Putting
-- ---------------------------------------------------------------------------

/-- A key that is new goes to the end. -/
theorem put_of_fresh {d : Dictionary κ ν} {k : κ} {v : ν} (h : ∀ e ∈ d, (e.1 == k) = false) :
    put d k v = d ++ [(k, v)] := by
  induction d with
  | nil => rfl
  | cons e rest ih =>
    obtain ⟨k', v'⟩ := e
    have hHead : (k' == k) = false := h (k', v') List.mem_cons_self
    have hRest := ih fun e he => h e (List.mem_cons_of_mem _ he)
    simp only [put, hHead, hRest, List.cons_append, Bool.false_eq_true, if_false]

/-- The keys after a key was put: the old ones, and the key itself if it is new. -/
theorem keys_put (d : Dictionary κ ν) (k : κ) (v : ν) :
    (put d k v).keys = d.keys ∨ (put d k v).keys = d.keys ++ [k] ∧ ∀ e ∈ d, (e.1 == k) = false := by
  induction d with
  | nil => exact Or.inr ⟨rfl, by simp⟩
  | cons e rest ih =>
    obtain ⟨k', v'⟩ := e
    unfold put
    split
    · exact Or.inl rfl
    · rename_i hHead
      rcases ih with hSame | ⟨hNew, hFresh⟩
      · refine Or.inl ?_
        show k' :: keys (put rest k v) = k' :: keys rest
        rw [hSame]
      · refine Or.inr ⟨?_, ?_⟩
        · show k' :: keys (put rest k v) = k' :: keys rest ++ [k]
          rw [hNew, List.cons_append]
        · intro e he
          rcases List.mem_cons.mp he with rfl | he
          · simpa using hHead
          · exact hFresh e he

theorem distinct_iff_keys {d : Dictionary κ ν} :
    d.Distinct ↔ d.keys.Pairwise fun k k' => (k == k') = false := by
  unfold Distinct keys
  rw [List.pairwise_map]

theorem put_distinct {d : Dictionary κ ν} (k : κ) (v : ν) (h : d.Distinct) :
    (put d k v).Distinct := by
  rw [distinct_iff_keys] at *
  rcases keys_put d k v with hSame | ⟨hNew, hFresh⟩
  · rw [hSame]
    exact h
  · rw [hNew, List.pairwise_append]
    refine ⟨h, List.pairwise_singleton _ _, ?_⟩
    intro a ha b hb
    obtain ⟨e, he, rfl⟩ := List.mem_map.mp ha
    rw [List.mem_singleton] at hb
    rw [hb]
    exact hFresh e he

theorem overlay_distinct {d : Dictionary κ ν} (top : Dictionary κ ν) (h : d.Distinct) :
    (overlay d top).Distinct := by
  unfold overlay
  induction top generalizing d with
  | nil => exact h
  | cons e rest ih => exact ih (put_distinct e.1 e.2 h)

theorem ofEntries_distinct (entries : List (κ × ν)) : (ofEntries entries).Distinct :=
  overlay_distinct entries List.Pairwise.nil

/-- Laying entries with new and distinct keys over a dictionary appends them. -/
theorem overlay_eq_append {d top : Dictionary κ ν} (hTop : top.Distinct)
    (hFresh : ∀ e ∈ d, ∀ f ∈ top, (e.1 == f.1) = false) : overlay d top = d ++ top := by
  unfold overlay
  induction top generalizing d with
  | nil => exact (List.append_nil d).symm
  | cons f rest ih =>
    obtain ⟨hHead, hRest⟩ := List.pairwise_cons.mp hTop
    have hPut : put d f.1 f.2 = d ++ [f] :=
      put_of_fresh fun e he => hFresh e he f List.mem_cons_self
    rw [List.foldl_cons, hPut]
    rw [ih hRest ?_, List.append_assoc, List.singleton_append]
    intro e he g hg
    rcases List.mem_append.mp he with he | he
    · exact hFresh e he g (List.mem_cons_of_mem _ hg)
    · rw [List.mem_singleton.mp he]
      exact hHead g hg

/-- What is put keeps the other values or replaces one of them. -/
theorem mem_values_put {d : Dictionary κ ν} {k : κ} {v w : ν} (h : w ∈ (put d k v).values) :
    w ∈ d.values ∨ w = v := by
  induction d with
  | nil => exact Or.inr (List.mem_singleton.mp h)
  | cons e rest ih =>
    obtain ⟨k', v'⟩ := e
    unfold put at h
    split at h
    · rcases List.mem_cons.mp h with rfl | hRest
      · exact Or.inr rfl
      · exact Or.inl (List.mem_cons_of_mem _ hRest)
    · rcases List.mem_cons.mp h with rfl | hRest
      · exact Or.inl List.mem_cons_self
      · exact (ih hRest).imp_left (List.mem_cons_of_mem _)

theorem mem_values_overlay {d top : Dictionary κ ν} {w : ν} (h : w ∈ (overlay d top).values) :
    w ∈ d.values ∨ w ∈ top.values := by
  unfold overlay at h
  induction top generalizing d with
  | nil => exact Or.inl h
  | cons e rest ih =>
    rcases ih h with hPut | hRest
    · rcases mem_values_put hPut with hOld | rfl
      · exact Or.inl hOld
      · exact Or.inr List.mem_cons_self
    · exact Or.inr (List.mem_cons_of_mem _ hRest)

/-- A dictionary has no other values than the entries that it is made of. -/
theorem mem_values_ofEntries {entries : List (κ × ν)} {w : ν} (h : w ∈ (ofEntries entries).values) :
    w ∈ values entries :=
  (mem_values_overlay h).resolve_left List.not_mem_nil

/-- The dictionary of entries with distinct keys is the list of these entries. -/
theorem ofEntries_eq_self {entries : List (κ × ν)} (h : Distinct entries) :
    ofEntries entries = entries :=
  overlay_eq_append (d := []) h (by simp)

-- ---------------------------------------------------------------------------
-- Looking up
-- ---------------------------------------------------------------------------

/-- What is found under a key is the value of an entry with this key. -/
theorem exists_of_get? {d : Dictionary κ ν} {k : κ} {v : ν} (h : get? d k = some v) :
    ∃ e ∈ d, (e.1 == k) = true ∧ e.2 = v := by
  induction d with
  | nil => cases h
  | cons e rest ih =>
    obtain ⟨k', v'⟩ := e
    unfold get? at h
    split at h
    · rename_i hHead
      exact ⟨(k', v'), List.mem_cons_self, hHead, Option.some.inj h⟩
    · obtain ⟨e, he, hk, hv⟩ := ih h
      exact ⟨e, List.mem_cons_of_mem _ he, hk, hv⟩

/-- Nothing is found under a key that no entry has. -/
theorem get?_eq_none_iff {d : Dictionary κ ν} {k : κ} :
    get? d k = none ↔ ∀ e ∈ d, (e.1 == k) = false := by
  induction d with
  | nil => simp [get?]
  | cons e rest ih =>
    obtain ⟨k', v'⟩ := e
    rw [get?, List.forall_mem_cons]
    split
    · rename_i hHead
      simp [hHead]
    · rename_i hHead
      simp [hHead, ih]

/-- A key is present where something is found under it. -/
theorem has_eq_isSome (d : Dictionary κ ν) (k : κ) : d.has k = (get? d k).isSome := by
  induction d with
  | nil => rfl
  | cons e rest ih =>
    obtain ⟨k', v'⟩ := e
    rw [get?, has, List.any_cons]
    cases hHead : k' == k with
    | true => rfl
    | false => exact ih

/-- With distinct keys, an entry whose key equals itself is found under it. -/
theorem get?_of_mem {d : Dictionary κ ν} (hDistinct : d.Distinct) {e : κ × ν} (he : e ∈ d)
    (hSelf : (e.1 == e.1) = true) : get? d e.1 = some e.2 := by
  induction d with
  | nil => simp at he
  | cons f rest ih =>
    obtain ⟨hHead, hRest⟩ := List.pairwise_cons.mp hDistinct
    unfold get?
    rcases List.mem_cons.mp he with rfl | he
    · rw [if_pos hSelf]
    · rw [if_neg (by rw [hHead e he]; simp)]
      exact ih hRest he

/-- The dictionary compares its keys by equality. -/
def Exact (d : Dictionary κ ν) : Prop := ∀ e ∈ d, ∀ k, (e.1 == k) = true ↔ e.1 = k

/-- Looking up and being an entry are the same then. -/
theorem Exact.get?_eq_some_iff {d : Dictionary κ ν} (hExact : d.Exact) (hDistinct : d.Distinct) {k : κ}
    {v : ν} : get? d k = some v ↔ (k, v) ∈ d := by
  constructor
  · intro h
    obtain ⟨e, he, hk, rfl⟩ := exists_of_get? h
    rw [← (hExact e he k).mp hk]
    exact he
  · intro h
    exact get?_of_mem hDistinct h ((hExact _ h k).mpr rfl)

/-- Dictionaries with the same entries are the same mapping. -/
theorem Exact.get?_eq_of_perm {d d' : Dictionary κ ν} (hExact : d.Exact) (hDistinct : d.Distinct)
    (hDistinct' : d'.Distinct) (h : d.Perm d') (k : κ) : get? d k = get? d' k := by
  have hExact' : d'.Exact := fun e he => hExact e (h.mem_iff.mpr he)
  refine Option.ext fun v => ?_
  rw [hExact.get?_eq_some_iff hDistinct, hExact'.get?_eq_some_iff hDistinct', h.mem_iff]

-- ---------------------------------------------------------------------------
-- Side by side
-- ---------------------------------------------------------------------------

/-- The dictionaries have the same keys in the same order, with related values. -/
def Alongside {ν' : Type} (R : κ → ν → ν' → Prop) : Dictionary κ ν → Dictionary κ ν' → Prop :=
  List.Forall₂ fun e f => e.1 = f.1 ∧ R e.1 e.2 f.2

namespace Alongside

variable {ν' : Type} {R : κ → ν → ν' → Prop} {d : Dictionary κ ν} {d' : Dictionary κ ν'} {k : κ}

omit [BEq κ] in
theorem keys_eq (h : Alongside R d d') : d'.keys = d.keys := by
  induction h with
  | nil => rfl
  | cons head _ ih => exact congrArg₂ List.cons head.1.symm ih

theorem distinct (h : Alongside R d d') (hDistinct : d.Distinct) : d'.Distinct := by
  rw [distinct_iff_keys, h.keys_eq, ← distinct_iff_keys]
  exact hDistinct

/-- Side by side, a key is found in both or in none. -/
theorem get?_cases (h : Alongside R d d') :
    (get? d k = none ∧ get? d' k = none) ∨
      ∃ k' v w, (k' == k) = true ∧ get? d k = some v ∧ get? d' k = some w ∧ R k' v w := by
  induction h with
  | nil => exact Or.inl ⟨rfl, rfl⟩
  | @cons e f _ _ head _ ih =>
    obtain ⟨k', v⟩ := e
    obtain ⟨k'', w⟩ := f
    obtain ⟨rfl, hValues⟩ := head
    rw [get?, get?]
    by_cases hKey : (k' == k) = true
    · rw [if_pos hKey, if_pos hKey]
      exact Or.inr ⟨k', v, w, hKey, rfl, rfl, hValues⟩
    · rw [if_neg hKey, if_neg hKey]
      exact ih

theorem get?_none (h : Alongside R d d') (hNone : get? d k = none) : get? d' k = none := by
  rcases h.get?_cases with ⟨-, hNone'⟩ | ⟨_, _, _, -, hSome, -⟩
  · exact hNone'
  · rw [hNone] at hSome
    cases hSome

theorem get?_some {v : ν} (h : Alongside R d d') (hSome : get? d k = some v) :
    ∃ k' w, (k' == k) = true ∧ get? d' k = some w ∧ R k' v w := by
  rcases h.get?_cases with ⟨hNone, -⟩ | ⟨k', _, w, hKey, hSome', hFound, hValues⟩
  · rw [hNone] at hSome
    cases hSome
  · cases hSome.symm.trans hSome'
    exact ⟨k', w, hKey, hFound, hValues⟩

omit [BEq κ] in
/-- What is alongside a dictionary can follow it into another order. -/
theorem exists_perm {d₁ : Dictionary κ ν} (h : Alongside R d d') (hPerm : d.Perm d₁) :
    ∃ d₁', Alongside R d₁ d₁' ∧ d'.Perm d₁' := by
  obtain ⟨d₁', hAlong, hOrder⟩ := List.perm_comp_forall₂ hPerm.symm h
  exact ⟨d₁', hAlong, hOrder.symm⟩

section Chains

variable {ν₁ ν₂ : Type} {S : κ → ν → ν₁ → Prop} {T : κ → ν' → ν₁ → Prop}

omit [BEq κ] in
/-- Two dictionaries alongside a third one are alongside each other. -/
theorem both {d₁ : Dictionary κ ν₁} (h : Alongside R d d') (h' : Alongside S d d₁)
    (hStep : ∀ e ∈ d, ∀ v w, R e.1 e.2 v → S e.1 e.2 w → T e.1 v w) : Alongside T d' d₁ := by
  induction h generalizing d₁ with
  | nil =>
    cases h'
    exact .nil
  | cons head _ ih =>
    cases h' with
    | cons head' rest' =>
      obtain ⟨hHead, hRest⟩ := List.forall_mem_cons.mp hStep
      refine .cons ⟨head.1.symm.trans head'.1, ?_⟩ (ih rest' hRest)
      rw [← head.1]
      exact hHead _ _ head.2 head'.2

omit [BEq κ] in
theorem comp {d₁ : Dictionary κ ν₁} (h : Alongside R d d') (h' : Alongside T d' d₁) :
    Alongside (fun k v w => ∃ u, R k v u ∧ T k u w) d d₁ := by
  induction h generalizing d₁ with
  | nil =>
    cases h'
    exact .nil
  | cons head _ ih =>
    cases h' with
    | cons head' rest' =>
      refine .cons ⟨head.1.trans head'.1, _, head.2, ?_⟩ (ih rest')
      rw [head.1]
      exact head'.2

omit [BEq κ] in
theorem eq {d₁ : Dictionary κ ν} (h : Alongside (fun _ v w => v = w) d d₁) : d = d₁ := by
  induction h with
  | nil => rfl
  | cons head _ ih => exact congrArg₂ List.cons (Prod.ext head.1 head.2) ih

end Chains

end Alongside

section Lawful

variable [LawfulBEq κ]

/-- A key that is not among the keys goes to the end. -/
theorem put_of_not_mem {d : Dictionary κ ν} {k : κ} (v : ν) (h : k ∉ d.keys) :
    put d k v = d ++ [(k, v)] := by
  refine put_of_fresh ?_
  intro e he
  rw [beq_eq_false_iff_ne]
  rintro rfl
  exact h (List.mem_map_of_mem he)

theorem distinct_iff_nodup {d : Dictionary κ ν} : d.Distinct ↔ d.keys.Nodup := by
  rw [distinct_iff_keys, List.nodup_iff_pairwise_ne]
  simp

theorem mem_keys_iff {d : Dictionary κ ν} {k : κ} : k ∈ d.keys ↔ ∃ v, get? d k = some v := by
  induction d with
  | nil => simp [keys, get?]
  | cons e rest ih =>
    obtain ⟨k', v'⟩ := e
    show k ∈ k' :: keys rest ↔ _
    rw [List.mem_cons, ih, get?]
    by_cases hk : k' = k
    · simp [hk]
    · simp [hk, Ne.symm hk]

/-- With distinct keys, looking up and being an entry are the same. -/
theorem get?_eq_some_iff {d : Dictionary κ ν} (hDistinct : d.Distinct) {k : κ} {v : ν} :
    get? d k = some v ↔ (k, v) ∈ d := by
  have hExact : d.Exact := fun _ _ _ => beq_iff_eq
  exact hExact.get?_eq_some_iff hDistinct

theorem get?_put_self (d : Dictionary κ ν) (k : κ) (v : ν) : get? (put d k v) k = some v := by
  induction d with
  | nil => simp [put, get?]
  | cons e rest ih =>
    obtain ⟨k', v'⟩ := e
    unfold put
    split
    · rename_i hk
      simp [get?, hk]
    · rename_i hk
      simp only [get?, hk, Bool.false_eq_true, if_false, ih]

theorem get?_put_of_ne {d : Dictionary κ ν} {k k' : κ} {v : ν} (h : k ≠ k') :
    get? (put d k v) k' = get? d k' := by
  induction d with
  | nil => simp [put, get?, h]
  | cons e rest ih =>
    obtain ⟨k₀, v₀⟩ := e
    unfold put
    split
    · rename_i hk
      simp [get?, beq_iff_eq.mp hk, h]
    · simp only [get?, ih]

/-- A key that was put is there, and the others stay. -/
theorem mem_keys_put {d : Dictionary κ ν} {k k' : κ} {v : ν} :
    k' ∈ (put d k v).keys ↔ k' ∈ d.keys ∨ k' = k := by
  rw [mem_keys_iff, mem_keys_iff]
  by_cases hSame : k = k'
  · subst hSame
    rw [get?_put_self]
    simp
  · rw [get?_put_of_ne hSame]
    simp [Ne.symm hSame]

theorem mem_keys_overlay {d top : Dictionary κ ν} {k : κ} :
    k ∈ (overlay d top).keys ↔ k ∈ d.keys ∨ k ∈ top.keys := by
  unfold overlay
  induction top generalizing d with
  | nil => simp [keys]
  | cons e rest ih =>
    rw [List.foldl_cons, ih, mem_keys_put, or_assoc]
    show _ ↔ k ∈ d.keys ∨ k ∈ e.1 :: keys rest
    rw [List.mem_cons]

/-- A dictionary has the keys of the entries that it is made of. -/
theorem mem_keys_ofEntries {entries : List (κ × ν)} {k : κ} :
    k ∈ (ofEntries entries).keys ↔ k ∈ keys entries := by
  rw [ofEntries, mem_keys_overlay]
  simp [keys]

theorem mem_of_mem_put {d : Dictionary κ ν} {k : κ} {v : ν} {e : κ × ν} (h : e ∈ put d k v) :
    e ∈ d ∨ e = (k, v) := by
  induction d with
  | nil => exact Or.inr (List.mem_singleton.mp h)
  | cons f rest ih =>
    obtain ⟨k', v'⟩ := f
    unfold put at h
    split at h
    · rename_i hKey
      rw [beq_iff_eq.mp hKey] at h ⊢
      rcases List.mem_cons.mp h with rfl | hRest
      · exact Or.inr rfl
      · exact Or.inl (List.mem_cons_of_mem _ hRest)
    · rcases List.mem_cons.mp h with rfl | hRest
      · exact Or.inl List.mem_cons_self
      · exact (ih hRest).imp_left (List.mem_cons_of_mem _)

theorem mem_of_mem_overlay {d top : Dictionary κ ν} {e : κ × ν} (h : e ∈ overlay d top) :
    e ∈ d ∨ e ∈ top := by
  unfold overlay at h
  induction top generalizing d with
  | nil => exact Or.inl h
  | cons f rest ih =>
    rcases ih h with hPut | hRest
    · rcases mem_of_mem_put hPut with hOld | rfl
      · exact Or.inl hOld
      · exact Or.inr List.mem_cons_self
    · exact Or.inr (List.mem_cons_of_mem _ hRest)

/-- The entries of a dictionary are among those that it is made of. -/
theorem mem_of_mem_ofEntries {entries : List (κ × ν)} {e : κ × ν} (h : e ∈ ofEntries entries) :
    e ∈ entries :=
  (mem_of_mem_overlay h).resolve_left List.not_mem_nil

omit [LawfulBEq κ] in
/-- Putting what is there already changes nothing. -/
theorem put_eq_self {d : Dictionary κ ν} {k : κ} {v : ν} (h : get? d k = some v) : put d k v = d := by
  induction d with
  | nil => cases h
  | cons e rest ih =>
    obtain ⟨k', v'⟩ := e
    rw [get?] at h
    rw [put]
    split at h
    · rename_i hKey
      rw [if_pos hKey, Option.some.inj h]
    · rename_i hKey
      rw [if_neg hKey, ih h]

omit [LawfulBEq κ] in
/-- So does laying such entries over a dictionary. -/
theorem overlay_eq_self {d top : Dictionary κ ν} (h : ∀ e ∈ top, get? d e.1 = some e.2) :
    overlay d top = d := by
  unfold overlay
  induction top with
  | nil => rfl
  | cons e rest ih =>
    obtain ⟨hHead, hRest⟩ := List.forall_mem_cons.mp h
    rw [List.foldl_cons, put_eq_self hHead, ih hRest]

/-- The entries laid over a dictionary are found before its own. -/
theorem get?_overlay_of_distinct {d top : Dictionary κ ν} (h : top.Distinct) (k : κ) :
    get? (overlay d top) k = (get? top k).or (get? d k) := by
  unfold overlay
  induction top generalizing d with
  | nil => rfl
  | cons e rest ih =>
    obtain ⟨k', v⟩ := e
    obtain ⟨hHead, hRest⟩ := List.pairwise_cons.mp h
    rw [List.foldl_cons, ih hRest, get?]
    by_cases hKey : k' = k
    · -- the key is not put again later
      subst hKey
      have hNone : get? rest k' = none := by
        rw [get?_eq_none_iff]
        intro f hf
        rw [BEq.comm]
        exact hHead f hf
      rw [hNone, get?_put_self, if_pos BEq.rfl, Option.none_or, Option.some_or]
    · rw [get?_put_of_ne hKey, if_neg (by simpa using hKey)]

/-- Their new keys come after those of the dictionary, in order. -/
theorem keys_overlay_of_distinct [DecidableEq κ] {d top : Dictionary κ ν} (h : top.Distinct) :
    (overlay d top).keys = d.keys ++ top.keys.filter (· ∉ d.keys) := by
  unfold overlay
  induction top generalizing d with
  | nil => exact (List.append_nil _).symm
  | cons e rest ih =>
    obtain ⟨k, v⟩ := e
    obtain ⟨hHead, hRest⟩ := List.pairwise_cons.mp h
    have hTop : keys ((k, v) :: rest) = k :: keys rest := rfl
    have hLater : ∀ k' ∈ keys rest, k' ≠ k := by
      intro k' hMem hSame
      obtain ⟨f, hf, rfl⟩ := List.mem_map.mp hMem
      exact beq_eq_false_iff_ne.mp (hHead f hf) hSame.symm
    rw [List.foldl_cons, ih hRest, hTop, List.filter_cons]
    rcases keys_put d k v with hSame | ⟨hNew, hFresh⟩
    · have hHere : k ∈ d.keys := by
        rw [← hSame, mem_keys_put]
        exact Or.inr rfl
      rw [hSame, if_neg (by simpa using hHere)]
    · have hAbsent : k ∉ d.keys := by
        intro hMem
        obtain ⟨f, hf, hSame⟩ := List.mem_map.mp hMem
        exact beq_eq_false_iff_ne.mp (hFresh f hf) hSame
      rw [hNew, if_pos (by simpa using hAbsent), List.append_assoc, List.singleton_append]
      congr 2
      refine List.filter_congr fun k' hMem => ?_
      simp [hLater k' hMem]

end Lawful

end ClientGen.Dictionary
