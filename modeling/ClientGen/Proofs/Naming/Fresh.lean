import ClientGen.Naming.Fresh
import Mathlib.Data.List.Nodup

/-!
# Fresh names are free

`firstFree` looks at a bounded number of candidates. This module shows that
the bound is never what ends the search: candidates that leave different marks
on the taken names cannot all be taken, by the pigeonhole principle, so the
search stops where an unbounded one would (`IsFirstFree`).

Main results:

* `firstFree_isFirstFree` — the bounded search stops at the first free
  candidate whenever one lies within its bound.
* `exists_free` — among one more candidates than there are marks, one is free.
* `fresh_not_mem` — a fresh name is not taken.
-/

namespace ClientGen.Naming

/-- `k` is the first number from `n` on whose candidate is free: the place where
a search without a bound ends. -/
structure IsFirstFree (isTaken : String → Bool) (candidate : Nat → String) (n k : Nat) : Prop where
  le     : n ≤ k
  free   : isTaken (candidate k) = false
  before : ∀ j, n ≤ j → j < k → isTaken (candidate j) = true

variable {isTaken : String → Bool} {candidate : Nat → String}

-- ---------------------------------------------------------------------------
-- The bounded search
-- ---------------------------------------------------------------------------

/-- A search with a free candidate in its reach ends at the first one. -/
theorem firstFree_isFirstFree {bound n : Nat}
    (hFree : ∃ k, n ≤ k ∧ k ≤ n + bound ∧ isTaken (candidate k) = false) :
    IsFirstFree isTaken candidate n (firstFree isTaken candidate bound n) := by
  induction bound generalizing n with
  | zero =>
    obtain ⟨k, hk, hk', hFree⟩ := hFree
    have : k = n := by omega
    subst this
    exact ⟨Nat.le_refl _, hFree, fun j _ _ => by simp only [firstFree] at *; omega⟩
  | succ bound ih =>
    rw [firstFree]
    split
    · rename_i hTaken
      -- the number `n` itself is taken, so the free one lies beyond it
      have hBeyond : ∃ k, n + 1 ≤ k ∧ k ≤ n + 1 + bound ∧ isTaken (candidate k) = false := by
        obtain ⟨k, hk, hk', hFree⟩ := hFree
        refine ⟨k, ?_, by omega, hFree⟩
        rcases Nat.lt_or_ge n k with hlt | hge
        · exact hlt
        · have : k = n := by omega
          rw [this, hTaken] at hFree
          cases hFree
      have hRest := ih hBeyond
      refine ⟨by have := hRest.le; omega, hRest.free, ?_⟩
      intro j hj hjk
      rcases Nat.lt_or_ge n j with hlt | hge
      · exact hRest.before j hlt hjk
      · have : j = n := by omega
        rw [this]
        exact hTaken
    · rename_i hTaken
      exact ⟨Nat.le_refl _, by simpa using hTaken, fun j _ _ => by omega⟩

-- ---------------------------------------------------------------------------
-- The pigeonhole principle
-- ---------------------------------------------------------------------------

/-- If every taken candidate leaves a mark in a list and no two candidates leave
the same mark, one of any `marks.length + 1` candidates in a row is free. -/
theorem exists_free {β : Type} {mark : Nat → β} {marks : List β} {n : Nat}
    (hInj : ∀ i j, n ≤ i → n ≤ j → mark i = mark j → i = j)
    (hMark : ∀ k, n ≤ k → isTaken (candidate k) = true → mark k ∈ marks) :
    ∃ k, n ≤ k ∧ k ≤ n + marks.length ∧ isTaken (candidate k) = false := by
  by_contra hNone
  have hAll : ∀ k, n ≤ k → k ≤ n + marks.length → isTaken (candidate k) = true := by
    intro k hk hk'
    by_contra hFree
    exact hNone ⟨k, hk, hk', by simpa using hFree⟩
  let left := (List.range (marks.length + 1)).map fun i => mark (n + i)
  have hNodup : left.Nodup := by
    refine (List.nodup_range).map_on ?_
    intro i _ j _ hij
    have := hInj (n + i) (n + j) (by omega) (by omega) hij
    omega
  have hSubset : left ⊆ marks := by
    intro m hm
    obtain ⟨i, hi, rfl⟩ := List.mem_map.mp hm
    have := List.mem_range.mp hi
    exact hMark (n + i) (by omega) (hAll (n + i) (by omega) (by omega))
  have := hNodup.length_le_of_subset hSubset
  simp only [left, List.length_map, List.length_range] at this
  omega

-- ---------------------------------------------------------------------------
-- Numbered names
-- ---------------------------------------------------------------------------

theorem toString_inj {m n : Nat} (h : toString m = toString n) : m = n := by
  have hDigits : Nat.toDigits 10 m = Nat.toDigits 10 n := by
    simpa only [Nat.toString_eq_repr, Nat.toList_repr] using congrArg String.toList h
  simpa using congrArg (fun ds => Nat.ofDigitChars 10 ds 0) hDigits

/-- Numbers from 1 on give different names. -/
theorem numbered_inj {base mark : String} {m n : Nat} (hm : 1 ≤ m) (hn : 1 ≤ n)
    (h : numbered base mark m = numbered base mark n) : m = n := by
  -- the name without a number is shorter than every name with one
  have hLonger : ∀ k : Nat, base ≠ base ++ mark ++ toString k := by
    intro k hk
    have hLen := congrArg String.length hk
    simp only [String.length_append] at hLen
    have : 0 < (toString k).length := by
      rw [Nat.toString_eq_repr, ← String.length_toList, Nat.toList_repr]
      exact Nat.length_toDigits_pos
    omega
  unfold numbered at h
  split at h <;> split at h
  · omega
  · exact absurd h (hLonger n)
  · exact absurd h.symm (hLonger m)
  · exact toString_inj ((String.append_right_inj _).mp h)

/-- A fresh name is the first free one of its sequence. -/
theorem fresh_isFirstFree {taken : List String} {n : Nat}
    (hInj : ∀ i j, n ≤ i → n ≤ j → candidate i = candidate j → i = j) :
    ∃ k, IsFirstFree taken.contains candidate n k ∧ fresh taken candidate n = candidate k := by
  refine ⟨_, firstFree_isFirstFree ?_, rfl⟩
  have hMark : ∀ k, n ≤ k → taken.contains (candidate k) = true → candidate k ∈ taken := by
    intro k _ hTaken
    simpa using hTaken
  exact exists_free hInj hMark

/-- A fresh name is not taken. -/
theorem fresh_not_mem {taken : List String} {n : Nat}
    (hInj : ∀ i j, n ≤ i → n ≤ j → candidate i = candidate j → i = j) :
    fresh taken candidate n ∉ taken := by
  obtain ⟨k, hk, hFresh⟩ : ∃ k, IsFirstFree taken.contains candidate n k ∧
      fresh taken candidate n = candidate k := fresh_isFirstFree hInj
  rw [hFresh]
  simpa using hk.free

end ClientGen.Naming
