import Mathlib.Data.List.Nodup

/-!
# Sorting without repetitions

Signatures, proposals and tables are put in order by removing repetitions and
sorting. Under an order that is total, transitive and antisymmetric the result
depends on the members of a list only, not on their order or number.

Main results:

* `mergeSort_eq_of_perm` — sorting forgets the order.
* `eraseDups_mergeSort_eq` — removing repetitions and sorting forgets the order
  and the repetitions.
-/

namespace ClientGen

variable {α : Type}

/-- Without repetitions no member occurs twice. -/
theorem nodup_eraseDups [BEq α] [LawfulBEq α] : ∀ xs : List α, xs.eraseDups.Nodup
  | [] => by simp
  | x :: xs => by
    -- the rest of the list is shorter once the repetitions of its head are removed
    have hShorter := List.length_filter_le (fun y => !y == x) xs
    rw [List.eraseDups_cons, List.nodup_cons]
    exact ⟨by simp, nodup_eraseDups _⟩
termination_by xs => xs.length
decreasing_by
  rw [List.length_cons]
  omega

/-- A further item is kept if it is not there yet. -/
theorem eraseDups_snoc [BEq α] [LawfulBEq α] (xs : List α) (x : α) :
    (xs ++ [x]).eraseDups = if x ∈ xs then xs.eraseDups else xs.eraseDups ++ [x] := by
  rw [List.eraseDups_append]
  split
  · rename_i hMem
    simp [List.removeAll, hMem]
  · rename_i hNew
    simp [List.removeAll, hNew, List.eraseDups_cons]

/-- What a comparison has to satisfy for sorting to have one result. -/
structure LinearOn (le : α → α → Bool) (P : α → Prop) : Prop where
  trans   : ∀ a b c, le a b = true → le b c = true → le a c = true
  total   : ∀ a b, (le a b || le b a) = true
  antisymm : ∀ a b, P a → P b → le a b = true → le b a = true → a = b

/-- Sorting forgets the order. -/
theorem mergeSort_eq_of_perm {le : α → α → Bool} {P : α → Prop} {xs ys : List α}
    (hLe : LinearOn le P) (hxs : ∀ x ∈ xs, P x) (h : xs.Perm ys) :
    xs.mergeSort le = ys.mergeSort le := by
  have hPerm : (xs.mergeSort le).Perm (ys.mergeSort le) :=
    (List.mergeSort_perm xs le).trans (h.trans (List.mergeSort_perm ys le).symm)
  have hSortedX := List.pairwise_mergeSort hLe.trans hLe.total xs
  have hSortedY := List.pairwise_mergeSort hLe.trans hLe.total ys
  refine hPerm.eq_of_pairwise ?_ hSortedX hSortedY
  intro a b ha hb
  have ha : a ∈ xs := List.mem_mergeSort.mp ha
  have hb : b ∈ xs := h.symm.subset (List.mem_mergeSort.mp hb)
  exact hLe.antisymm a b (hxs a ha) (hxs b hb)

/-- Without repetitions lists with the same members are rearrangements of each other. -/
theorem eraseDups_perm [BEq α] [LawfulBEq α] {xs ys : List α} (h : ∀ a, a ∈ xs ↔ a ∈ ys) :
    xs.eraseDups.Perm ys.eraseDups := by
  rw [List.perm_ext_iff_of_nodup (nodup_eraseDups xs) (nodup_eraseDups ys)]
  intro a
  rw [List.mem_eraseDups, List.mem_eraseDups]
  exact h a

/-- Removing repetitions and sorting leaves what depends on the members only. -/
theorem eraseDups_mergeSort_eq [BEq α] [LawfulBEq α] {le : α → α → Bool} {P : α → Prop}
    {xs ys : List α} (hLe : LinearOn le P) (hxs : ∀ x ∈ xs, P x) (h : ∀ a, a ∈ xs ↔ a ∈ ys) :
    xs.eraseDups.mergeSort le = ys.eraseDups.mergeSort le := by
  refine mergeSort_eq_of_perm hLe ?_ (eraseDups_perm h)
  intro x hx
  exact hxs x (List.mem_eraseDups.mp hx)

/-- Texts are sorted by an order with one result. -/
theorem string_linear : LinearOn (fun s t : String => decide (s ≤ t)) fun _ => True where
  trans := by
    intro a b c hab hbc
    simp only [decide_eq_true_eq] at *
    exact String.le_trans hab hbc
  total := by
    intro a b
    simp only [Bool.or_eq_true, decide_eq_true_eq]
    exact String.le_total a b
  antisymm := by
    intro a b _ _ hab hba
    simp only [decide_eq_true_eq] at *
    exact String.le_antisymm hab hba

end ClientGen
