import Mathlib.Data.List.Induction

/-!
# First occurrences

Parameters are gathered one by one, and one whose name is there already is passed over.
What is left of a list in this way are the first items with their keys, in order. This
holds of any comparison of keys; that the first item with a key is the one that is found
under it needs that the comparison tells keys that are the same by no third one.

Main results:

* `firstsBy_snoc` — a further item is kept if its key is new.
* `pairwise_firstsBy` — the keys that are left differ.
* `find?_firstsBy` — what is found under a key is what is found first in the whole list.
* `filter_of_apart` — where keys differ, at most one item has a key.
-/

namespace ClientGen

variable {α κ : Type} [BEq κ] {key : α → κ}

/-- Add an item unless its key is there. -/
def addNew (key : α → κ) (kept : List α) (x : α) : List α :=
  if kept.any (key · == key x) then kept else kept ++ [x]

/-- The first items with their keys. -/
def firstsBy (key : α → κ) (xs : List α) : List α := xs.eraseDupsBy fun x y => key y == key x

theorem firstsBy_cons (x : α) (xs : List α) :
    firstsBy key (x :: xs) = x :: firstsBy key (xs.filter fun y => !(key x == key y)) := by
  rw [firstsBy, List.eraseDupsBy_cons, firstsBy]
  simp

/-- A further item is kept if its key is new. -/
theorem firstsBy_snoc (xs : List α) (x : α) :
    firstsBy key (xs ++ [x]) = addNew key (firstsBy key xs) x := by
  match xs with
  | [] => rfl
  | y :: ys =>
    -- the rest of the list is shorter once the items with the key of its head are removed
    have hShorter := List.length_filter_le (fun z => !(key y == key z)) ys
    have ih := firstsBy_snoc (ys.filter fun z => !(key y == key z)) x
    rw [List.cons_append, firstsBy_cons, firstsBy_cons, List.filter_append, addNew, List.any_cons]
    cases hSame : key y == key x with
    | true => simp [hSame]
    | false =>
      have hKept : [x].filter (fun z => !(key y == key z)) = [x] := by simp [hSame]
      rw [hKept, ih, Bool.false_or, addNew]
      split <;> rfl
termination_by xs.length
decreasing_by
  rw [List.length_cons]
  omega

/-- Adding item by item those whose keys are new leaves the first ones. -/
theorem foldl_firstsBy (before after : List α) :
    after.foldl (addNew key) (firstsBy key before) = firstsBy key (before ++ after) := by
  induction after generalizing before with
  | nil => rw [List.append_nil, List.foldl_nil]
  | cons x xs ih =>
    rw [List.foldl_cons, ← firstsBy_snoc, ih, List.append_assoc, List.singleton_append]

theorem firstsBy_sublist (xs : List α) : (firstsBy key xs).Sublist xs := by
  induction xs using List.reverseRecOn with
  | nil => exact List.Sublist.slnil
  | append_singleton xs x ih =>
    rw [firstsBy_snoc, addNew]
    split
    · exact ih.trans (List.sublist_append_left _ _)
    · exact ih.append_right [x]

/-- The keys that are left are the first ones among the keys. -/
theorem map_firstsBy (xs : List α) : (firstsBy key xs).map key = firstsBy id (xs.map key) := by
  induction xs using List.reverseRecOn with
  | nil => rfl
  | append_singleton xs x ih =>
    rw [List.map_append, List.map_singleton, firstsBy_snoc, firstsBy_snoc, ← ih, addNew, addNew,
      List.any_map]
    show List.map key (if (firstsBy key xs).any (key · == key x) then _ else _) =
      if (firstsBy key xs).any (key · == key x) then _ else _
    split
    · rfl
    · rw [List.map_append, List.map_singleton]

/-- The keys that are left differ. -/
theorem pairwise_firstsBy (xs : List α) :
    (firstsBy key xs).Pairwise fun x y => (key x == key y) = false := by
  induction xs using List.reverseRecOn with
  | nil => exact List.Pairwise.nil
  | append_singleton xs x ih =>
    rw [firstsBy_snoc, addNew]
    split
    · exact ih
    · rename_i hNew
      rw [List.pairwise_append]
      refine ⟨ih, List.pairwise_singleton _ _, ?_⟩
      intro y hy x' hx'
      rw [List.mem_singleton.mp hx']
      simpa using (List.any_eq_false.mp (Bool.not_eq_true _ ▸ hNew)) y hy

section Apart

variable {xs : List α} {x : α} {k : κ}
  (hJoins : ∀ {a b : κ}, (a == k) = true → (b == k) = true → (a == b) = true)
  (hApart : xs.Pairwise fun x y => (key x == key y) = false)
include hJoins hApart

/-- Where keys differ, an item is the only one with a key that it has. -/
theorem filter_of_apart (hx : x ∈ xs) (hKey : (key x == k) = true) : xs.filter (key · == k) = [x] := by
  induction xs with
  | nil => cases hx
  | cons y ys ih =>
    obtain ⟨hHead, hRest⟩ := List.pairwise_cons.mp hApart
    rcases List.mem_cons.mp hx with rfl | hx
    · rw [List.filter_cons, if_pos hKey, List.filter_eq_nil_iff.mpr]
      intro z hz hSame
      have hBoth := hJoins hKey hSame
      rw [hHead z hz] at hBoth
      cases hBoth
    · have hOther : ¬ (key y == k) = true := by
        intro hSame
        have hBoth := hJoins hSame hKey
        rw [hHead x hx] at hBoth
        cases hBoth
      rw [List.filter_cons, if_neg hOther]
      exact ih hRest hx

/-- So it is what is found under the key. -/
theorem find?_of_apart (hx : x ∈ xs) (hKey : (key x == k) = true) : xs.find? (key · == k) = some x := by
  rw [← List.head?_filter, filter_of_apart hJoins hApart hx hKey, List.head?_cons]

end Apart

section Found

variable {k : κ} (hCongr : ∀ {a b : κ}, (a == b) = true → (a == k) = (b == k))
include hCongr

/-- Under a key that is alike the same as two keys that are the same, the first item of the whole list
is found. -/
theorem find?_firstsBy (xs : List α) : (firstsBy key xs).find? (key · == k) = xs.find? (key · == k) := by
  induction xs using List.reverseRecOn with
  | nil => rfl
  | append_singleton xs x ih =>
    rw [firstsBy_snoc, addNew, List.find?_append]
    split
    · rename_i hTaken
      obtain ⟨y, hy, hSame⟩ := List.any_eq_true.mp hTaken
      cases hFound : xs.find? (key · == k) with
      | some z => rw [ih, hFound, Option.some_or]
      | none =>
        -- the item with the same key that was kept is not found, so this one is not either
        have hOther : (key x == k) = false := by
          rw [← hCongr hSame, ← Bool.not_eq_true]
          exact List.find?_eq_none.mp (ih.trans hFound) y hy
        rw [ih, hFound, Option.none_or]
        simp [hOther]
    · rw [List.find?_append, ih]

/-- So some item has the key if some kept one does. -/
theorem any_firstsBy (xs : List α) : (firstsBy key xs).any (key · == k) = xs.any (key · == k) := by
  rw [← List.isSome_find?, ← List.isSome_find?, find?_firstsBy hCongr]

end Found

end ClientGen
