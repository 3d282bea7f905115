import ClientGen.Number.Shortest
import Mathlib.Tactic.Ring

/-!
# The shortest numeral reads back

A double is written with a numeral that was tried before: the search for the shortest one
reads every candidate back, and where it finds none it takes the exact numeral of the
double. What happens to the numeral after the search keeps its value, because a zero that
is dropped at the end of the digits is made up for in the exponent.

Main results:

* `ofDecimal_shift` — a zero at the end of the digits is a step of the exponent.
* `ofDecimal_shortest` — the shortest numeral of a magnitude denotes the magnitude.
-/

namespace ClientGen

-- ---------------------------------------------------------------------------
-- Rounding
-- ---------------------------------------------------------------------------

namespace Magnitude

/-- Rounding depends on the quotient only. -/
theorem roundDiv_scale {num den k : Nat} (hk : 0 < k) :
    roundDiv (num * k) (den * k) = roundDiv num den := by
  have hTwice : 2 * (num * k % (den * k)) = 2 * (num % den) * k := by
    rw [Nat.mul_mod_mul_right, Nat.mul_assoc]
  unfold roundDiv
  dsimp only
  rw [hTwice, Nat.mul_div_mul_right _ _ hk]
  simp only [Nat.mul_lt_mul_right hk]

theorem roundUnits_scale {num den k : Nat} (hk : 0 < k) :
    roundUnits (num * k) (den * k) = roundUnits num den := by
  unfold roundUnits
  dsimp only
  rw [Nat.mul_div_mul_right _ _ hk, Nat.mul_right_comm, roundDiv_scale hk]

/-- A representable number of units stays as it is. -/
theorem roundUnits_of_representable {n : Nat} (h : Representable n) : roundUnits n 1 = n := by
  have hWhole : roundDiv n (Nat.pow 2 (excessBits n)) = n / Nat.pow 2 (excessBits n) := by
    have hStep : 0 < Nat.pow 2 (excessBits n) := Nat.two_pow_pos _
    unfold roundDiv
    dsimp only
    rw [h.2, Nat.mul_zero, if_pos hStep]
  unfold roundUnits
  dsimp only
  rw [Nat.div_one, Nat.one_mul, hWhole]
  exact Nat.div_mul_cancel (Nat.dvd_of_mod_eq_zero h.2)

end Magnitude

namespace Double

theorem ofUnits_scale (negative : Bool) {num : Nat} (den : Nat) {k : Nat} (hk : 0 < k) :
    ofUnits negative (num * k) (den * k) = ofUnits negative num den := by
  unfold ofUnits Magnitude.round
  rw [Magnitude.roundUnits_scale hk]

theorem ofUnits_units (negative : Bool) (m : Magnitude) :
    ofUnits negative m.units 1 = .finite negative m := by
  unfold ofUnits Magnitude.round Magnitude.ofUnits?
  rw [Magnitude.roundUnits_of_representable m.representable, dif_pos m.representable]

/-- A magnitude is a fraction of any number. -/
theorem ofUnits_fraction (negative : Bool) (m : Magnitude) {p : Nat} (hp : 0 < p) :
    ofUnits negative (m.units * p) p = .finite negative m := by
  rw [← ofUnits_units negative m, ← ofUnits_scale negative 1 hp, Nat.one_mul]

-- ---------------------------------------------------------------------------
-- Numerals
-- ---------------------------------------------------------------------------

theorem digitCount_mul_ten {n : Nat} (h : n ≠ 0) : digitCount (n * 10) = digitCount n + 1 := by
  have hDigits : Nat.toDigits 10 n ++ Nat.toDigits 10 0 = Nat.toDigits 10 (10 * n + 0) :=
    Nat.toDigits_append_toDigits (by decide) (Nat.pos_of_ne_zero h) (by decide)
  unfold digitCount
  rw [Nat.mul_comm, ← Nat.add_zero (10 * n), ← hDigits, List.length_append]
  rfl

theorem digitCount_le_iff {n k : Nat} (hk : 0 < k) : digitCount n ≤ k ↔ n < 10 ^ k :=
  Nat.length_toDigits_le_iff (by decide) hk

/-- A zero at the end of the digits is a step of the exponent. -/
theorem ofDecimal_shift (negative : Bool) (digits : Nat) (exponent : Int) :
    ofDecimal negative ⟨digits * 10, exponent⟩ = ofDecimal negative ⟨digits, exponent + 1⟩ := by
  by_cases hZero : digits = 0
  · subst hZero
    rfl
  have hTen : digits * 10 ≠ 0 := by omega
  have hTop : (digitCount (digits * 10) : Int) + exponent = digitCount digits + (exponent + 1) := by
    rw [digitCount_mul_ten hZero]
    omega
  unfold ofDecimal
  simp only [hTop, if_neg hTen, if_neg hZero]
  generalize unitsPerOne = unit
  congr 2
  -- what is left is that both are the same fraction of units
  by_cases hWhole : 0 ≤ exponent
  · have hNext : (exponent + 1).toNat = exponent.toNat + 1 := by omega
    rw [if_pos hWhole, if_pos (by omega), hNext]
    simp only [Nat.pow_eq, Nat.pow_succ]
    congr 1
    ring
  · rw [if_neg hWhole]
    by_cases hLast : exponent = -1
    · subst hLast
      rw [if_pos (by decide)]
      have hOne : ∀ k, digits * Nat.pow 10 (-1 + 1 : Int).toNat * k = digits * k := by
        intro k
        rw [show (-1 + 1 : Int).toNat = 0 from rfl]
        simp
      rw [hOne, Nat.mul_right_comm]
      exact ofUnits_scale negative 1 (k := 10) (by decide)
    · have hNext : (-exponent).toNat = (-(exponent + 1)).toNat + 1 := by omega
      rw [if_neg (by omega), hNext, Nat.mul_right_comm]
      exact ofUnits_scale negative _ (k := 10) (by decide)

/-- The digits may be followed by any number of zeros. -/
theorem ofDecimal_shifts (negative : Bool) (digits : Nat) (exponent : Int) (k : Nat) :
    ofDecimal negative ⟨digits * 10 ^ k, exponent⟩ = ofDecimal negative ⟨digits, exponent + k⟩ := by
  induction k generalizing exponent with
  | zero => simp
  | succ k ih =>
    rw [Nat.pow_succ, ← Nat.mul_assoc, ofDecimal_shift, ih]
    congr 2
    omega

/-- Dropping zeros keeps the value. -/
theorem ofDecimal_dropZeros (negative : Bool) (bound : Nat) (d : Decimal) :
    ofDecimal negative (dropZeros bound d) = ofDecimal negative d := by
  induction bound generalizing d with
  | zero => rfl
  | succ bound ih =>
    unfold dropZeros
    split
    · rename_i hZero
      rw [ih, ← ofDecimal_shift, Nat.div_mul_cancel (Nat.dvd_of_mod_eq_zero hZero.2)]
    · rfl

/-- The sign of a numeral is the sign of the number. -/
theorem ofDecimal_sign {d : Decimal} {m : Magnitude} (h : ofDecimal false d = .finite false m)
    (negative : Bool) : ofDecimal negative d = .finite negative m := by
  have hUnits : ∀ num den, ofUnits false num den = .finite false m →
      ofUnits negative num den = .finite negative m := by
    intro num den h
    unfold ofUnits at h ⊢
    split at h
    · cases h
      rfl
    · cases h
  unfold ofDecimal at h ⊢
  dsimp only at h ⊢
  split
  · rename_i hZero
    rw [if_pos hZero] at h
    cases h
    rfl
  · rename_i hDigits
    rw [if_neg hDigits] at h
    split
    · rename_i hLarge
      rw [if_pos hLarge] at h
      cases h
    · rename_i hLarge
      rw [if_neg hLarge] at h
      split
      · rename_i hSmall
        rw [if_pos hSmall] at h
        cases h
        rfl
      · rename_i hSmall
        rw [if_neg hSmall] at h
        split
        · rename_i hWhole
          rw [if_pos hWhole] at h
          exact hUnits _ _ h
        · rename_i hWhole
          rw [if_neg hWhole] at h
          exact hUnits _ _ h

-- ---------------------------------------------------------------------------
-- The search
-- ---------------------------------------------------------------------------

/-- The exact numeral of a magnitude denotes it. -/
theorem ofDecimal_exact {m : Magnitude} (h : m.units ≠ 0) :
    ofDecimal false ⟨m.units * Nat.pow 5 1074, -1074⟩ = .finite false m := by
  have hPower : ∀ k, 0 < Nat.pow 5 k := fun _ => Nat.pow_pos (by decide)
  have hDigits : m.units * Nat.pow 5 1074 ≠ 0 := Nat.mul_ne_zero h (Nat.ne_of_gt (hPower 1074))
  -- there are between 745 and 1384 digits, so the numeral is not cut off for its size
  have hLarge : digitCount (m.units * Nat.pow 5 1074) ≤ 1384 := by
    rw [digitCount_le_iff (by decide)]
    have hBits : ∀ k, m.units.log2 < k → m.units < 2 ^ k := fun _ => (Nat.log2_lt h).mp
    calc m.units * Nat.pow 5 1074 < 2 ^ 2098 * Nat.pow 5 1074 :=
          Nat.mul_lt_mul_of_pos_right (hBits 2098 m.representable.1) (hPower 1074)
      _ < 10 ^ 1384 := by decide +kernel
  have hSmall : 744 < digitCount (m.units * Nat.pow 5 1074) := by
    rw [← Nat.not_le, digitCount_le_iff (by decide), Nat.not_lt]
    have hUnits : ∀ k, k ≤ m.units * k := fun k => Nat.le_mul_of_pos_left k (Nat.pos_of_ne_zero h)
    calc 10 ^ 744 ≤ Nat.pow 5 1074 := by decide +kernel
      _ ≤ m.units * Nat.pow 5 1074 := hUnits _
  have hTens : m.units * Nat.pow 5 1074 * unitsPerOne = m.units * Nat.pow 10 1074 := by
    have hTen : Nat.pow 5 1074 * unitsPerOne = Nat.pow 10 1074 := by decide +kernel
    rw [Nat.mul_assoc, hTen]
  have hExponent : (-(-1074 : Int)).toNat = 1074 := rfl
  unfold ofDecimal
  dsimp only
  rw [if_neg hDigits, if_neg (by omega), if_neg (by omega), if_neg (by decide), hExponent, hTens]
  exact ofUnits_fraction false m (Nat.pow_pos (by decide))

/-- What the search finds denotes the magnitude. -/
theorem ofDecimal_searchDigits {m : Magnitude} (h : m.units ≠ 0) (place : Int) (bound digits : Nat) :
    ofDecimal false (searchDigits m place bound digits) = .finite false m := by
  induction bound generalizing digits with
  | zero => exact ofDecimal_exact h
  | succ bound ih =>
    unfold searchDigits
    split
    · rename_i d hFound
      have hBack := List.find?_some hFound
      simpa [readsBack] using hBack
    · exact ih (digits + 1)

/-- **The shortest numeral reads back.** It denotes the magnitude it was made for, with either sign. -/
theorem ofDecimal_shortest (negative : Bool) (m : Magnitude) :
    ofDecimal negative (shortest m) = .finite negative m := by
  refine ofDecimal_sign ?_ negative
  unfold shortest
  split
  · rename_i hZero
    obtain ⟨units, hUnits⟩ := m
    subst hZero
    rfl
  · rename_i hUnits
    rw [ofDecimal_dropZeros]
    exact ofDecimal_searchDigits hUnits _ _ _

end Double

end ClientGen
