/-!
# Letters and digits

The letters and digits of ASCII are told by their numbers, and a letter has a number 32 above or below
that of the same letter in the other case. What the naming passes need of this is here: the three kinds
have no character in common, and changing the case changes letters of the other case only.

Main results:

* `isUpper_iff`, `isLower_iff` — the letters by their numbers.
* `toUpper_eq_self`, `toLower_eq_self` — what has the case already stays.
* `not_isAlpha_of_isDigit` — no digit is a letter.
-/

namespace ClientGen.Text

variable {c : Char}

-- ---------------------------------------------------------------------------
-- Kinds
-- ---------------------------------------------------------------------------

theorem isUpper_iff : c.isUpper = true ↔ 65 ≤ c.toNat ∧ c.toNat ≤ 90 := decide_eq_true_iff

theorem isLower_iff : c.isLower = true ↔ 97 ≤ c.toNat ∧ c.toNat ≤ 122 :=
  Bool.and_eq_true_iff.trans (and_congr decide_eq_true_iff decide_eq_true_iff)

theorem isDigit_iff : c.isDigit = true ↔ 48 ≤ c.toNat ∧ c.toNat ≤ 57 := Char.isDigit_iff_toNat

theorem isAlpha_iff : c.isAlpha = true ↔ c.isUpper = true ∨ c.isLower = true := Bool.or_eq_true_iff

theorem isAlphanum_iff : c.isAlphanum = true ↔ c.isAlpha = true ∨ c.isDigit = true :=
  Bool.or_eq_true_iff

theorem ascii_of_isAlphanum (h : c.isAlphanum = true) : c.toNat < 0x80 := by
  rw [isAlphanum_iff, isAlpha_iff, isUpper_iff, isLower_iff, isDigit_iff] at h
  omega

theorem not_isUpper_of_isLower (h : c.isLower = true) : c.isUpper = false := by
  rw [isLower_iff] at h
  rw [← Bool.not_eq_true, isUpper_iff]
  omega

theorem not_isLower_of_isUpper (h : c.isUpper = true) : c.isLower = false := by
  rw [← Bool.not_eq_true]
  intro hLower
  rw [not_isUpper_of_isLower hLower] at h
  cases h

theorem not_isAlpha_of_isDigit (h : c.isDigit = true) : c.isAlpha = false := by
  rw [isDigit_iff] at h
  rw [← Bool.not_eq_true, isAlpha_iff, isUpper_iff, isLower_iff]
  omega

theorem not_isUpper_of_isDigit (h : c.isDigit = true) : c.isUpper = false :=
  (Bool.or_eq_false_iff.mp (not_isAlpha_of_isDigit h)).1

theorem not_isLower_of_isDigit (h : c.isDigit = true) : c.isLower = false :=
  (Bool.or_eq_false_iff.mp (not_isAlpha_of_isDigit h)).2

-- ---------------------------------------------------------------------------
-- Case
-- ---------------------------------------------------------------------------

theorem toUpper_eq_self (h : c.isLower = false) : c.toUpper = c := by
  rw [← Bool.not_eq_true, isLower_iff] at h
  unfold Char.toUpper
  exact dif_neg h

theorem toLower_eq_self (h : c.isUpper = false) : c.toLower = c := by
  rw [← Bool.not_eq_true, isUpper_iff] at h
  unfold Char.toLower
  exact dif_neg h

theorem isUpper_toUpper (h : c.isLower = true) : c.toUpper.isUpper = true := by
  rw [isLower_iff] at h
  have hBounds : 97 ≤ c.val.toNat ∧ c.val.toNat ≤ 122 := h
  have hNumber : (c.val + ('A'.val - 'a'.val)).toNat = c.val.toNat - 32 := by
    -- 32 is taken away by adding its complement
    have hShift : ('A'.val - 'a'.val).toNat = 4294967264 := rfl
    rw [UInt32.toNat_add]
    omega
  unfold Char.toUpper
  rw [dif_pos (show 'a'.val ≤ c.val ∧ c.val ≤ 'z'.val from h), isUpper_iff]
  show 65 ≤ (c.val + ('A'.val - 'a'.val)).toNat ∧ (c.val + ('A'.val - 'a'.val)).toNat ≤ 90
  omega

theorem isLower_toLower (h : c.isUpper = true) : c.toLower.isLower = true := by
  rw [isUpper_iff] at h
  have hBounds : 65 ≤ c.val.toNat ∧ c.val.toNat ≤ 90 := h
  have hNumber : (c.val + ('a'.val - 'A'.val)).toNat = c.val.toNat + 32 := by
    have hShift : ('a'.val - 'A'.val).toNat = 32 := rfl
    rw [UInt32.toNat_add]
    omega
  unfold Char.toLower
  rw [dif_pos (show 'A'.val ≤ c.val ∧ c.val ≤ 'Z'.val from h), isLower_iff]
  show 97 ≤ (c.val + ('a'.val - 'A'.val)).toNat ∧ (c.val + ('a'.val - 'A'.val)).toNat ≤ 122
  omega

/-- A letter that is made small stays a letter. -/
theorem isAlpha_toLower (h : c.isUpper = true) : c.toLower.isAlpha = true :=
  isAlpha_iff.mpr (Or.inr (isLower_toLower h))

end ClientGen.Text
