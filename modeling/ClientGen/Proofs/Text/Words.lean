import ClientGen.Proofs.Text.Runs
import Mathlib.Data.List.TakeWhile

/-!
# Words and the gaps between them

The words of a text are its maximal runs of characters of a class, and the gaps between
them are made of the other characters. How long a gap is does not matter to the words, nor
do gaps at the ends: writing one mark for each gap and dropping those at the ends keeps the
words and their order.

Main results: `wordsOf_eq_nil_iff`, `wordsOf_trim`, `wordsOf_replaceRuns`.
-/

namespace ClientGen.Text

-- ---------------------------------------------------------------------------
-- One character more
-- ---------------------------------------------------------------------------

section Class

variable {p : Char → Bool}

theorem wordsOf_of_neg {c : Char} (h : p c = false) (rest : List Char) :
    wordsOf p (c :: rest) = wordsOf p rest := by
  simp [wordsOf, h]

/-- What comes after a character counts by its words, and by whether it goes on with the word of the
character. -/
theorem wordsOf_cons_congr {cs ds : List Char} (c : Char) (hHead : cs.head?.any p = ds.head?.any p)
    (h : wordsOf p cs = wordsOf p ds) : wordsOf p (c :: cs) = wordsOf p (c :: ds) := by
  cases cs <;> cases ds <;> simp_all [wordsOf]

/-- Every character of the class is in a word. -/
theorem wordsOf_eq_nil_iff {cs : List Char} : wordsOf p cs = [] ↔ ∀ c ∈ cs, p c = false := by
  induction cs with
  | nil => simp [wordsOf]
  | cons c rest ih =>
    rw [List.forall_mem_cons, ← ih]
    cases hc : p c with
    | false => simp [wordsOf_of_neg hc]
    | true =>
      have hSome : wordsOf p (c :: rest) ≠ [] := by
        unfold wordsOf
        rw [if_pos hc]
        split
        · simp
        · split
          · split <;> simp
          · simp
      simp [hSome]

end Class

-- ---------------------------------------------------------------------------
-- Gaps
-- ---------------------------------------------------------------------------

section Gaps

variable {p : Char → Bool}

theorem wordsOf_gap {c : Char} (h : p c = true) (rest : List Char) :
    wordsOf (! p ·) (c :: rest) = wordsOf (! p ·) rest :=
  wordsOf_of_neg (by simp [h]) rest

/-- A gap at the front is before all words, -/
theorem wordsOf_dropWhile (cs : List Char) : wordsOf (! p ·) (cs.dropWhile p) = wordsOf (! p ·) cs := by
  induction cs with
  | nil => rfl
  | cons c rest ih =>
    cases hc : p c with
    | true => rw [List.dropWhile_cons_of_pos hc, ih, wordsOf_gap hc]
    | false => rw [List.dropWhile_cons_of_neg (by simp [hc])]

/-- and one at the end after them. -/
theorem wordsOf_append_gap (cs : List Char) {gap : List Char} (h : ∀ c ∈ gap, p c = true) :
    wordsOf (! p ·) (cs ++ gap) = wordsOf (! p ·) cs := by
  induction cs with
  | nil => exact wordsOf_eq_nil_iff.mpr fun c hc => by simp [h c hc]
  | cons c rest ih =>
    refine wordsOf_cons_congr c ?_ ih
    cases rest with
    | cons _ _ => rfl
    | nil =>
      cases gap with
      | nil => rfl
      | cons g _ => simp [h g List.mem_cons_self]

theorem wordsOf_trim (cs : List Char) : wordsOf (! p ·) (trim p cs) = wordsOf (! p ·) cs := by
  have hBack : ∀ ds : List Char,
      wordsOf (! p ·) (ds.reverse.dropWhile p).reverse = wordsOf (! p ·) ds := by
    intro ds
    have hGap : ∀ c ∈ (ds.reverse.takeWhile p).reverse, p c = true := fun c hc =>
      List.mem_takeWhile_imp (List.mem_reverse.mp hc)
    have hAll : (ds.reverse.dropWhile p).reverse ++ (ds.reverse.takeWhile p).reverse = ds := by
      rw [← List.reverse_append, List.takeWhile_append_dropWhile, List.reverse_reverse]
    conv_rhs => rw [← hAll]
    exact (wordsOf_append_gap _ hGap).symm
  rw [trim, hBack, wordsOf_dropWhile]

/-- One mark keeps two words apart as well as a longer gap does. -/
theorem wordsOf_replaceRuns {mark : Char} (hMark : p mark = true) (cs : List Char) :
    wordsOf (! p ·) (replaceRuns p mark cs) = wordsOf (! p ·) cs := by
  induction cs with
  | nil => rfl
  | cons a rest ih =>
    cases rest with
    | nil =>
      cases ha : p a with
      | true => simp [replaceRuns, ha, wordsOf_gap hMark, wordsOf_gap ha]
      | false => simp [replaceRuns, ha]
    | cons b rest =>
      rw [replaceRuns]
      cases ha : p a with
      | true =>
        rw [wordsOf_gap ha, ← ih]
        split
        · rfl
        · exact wordsOf_gap hMark _
      | false =>
        -- the word of `a` goes on just where it went on before
        simp only [Bool.false_and, Bool.false_eq_true, if_false]
        refine wordsOf_cons_congr a ?_ ih
        rw [head?_replaceRuns]
        cases hb : p b with
        | true => simp [hb, hMark]
        | false => simp [hb]

end Gaps

end ClientGen.Text
