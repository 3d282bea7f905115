import ClientGen.Proofs.Document.Keys

/-!
# Steady keys

Keys of a document are compared as data, and what is put under a key is found under
all keys that are the same. So looking up after putting needs a key to which this
comparison is an equivalence. Texts and integers are such keys; an integer is the same
as each number that amounts to it, whatever its kind.

Main results:

* `steady_str` / `steady_int` — texts and integers are steady keys.
* `get?_overlay` — what is laid over a dictionary comes before what it holds.
* `get?_overlay_of_none` / `get?_overlay_of_some` — under a steady key a dictionary keeps
  its value unless the entries laid over it have another one.
-/

namespace ClientGen.Document

open ClientGen.Document.Value

-- ---------------------------------------------------------------------------
-- Steady keys
-- ---------------------------------------------------------------------------

namespace Value

/-- Keys that are the same are alike the same as this one, and what is the same as this one
is the same. -/
structure Steady (k : Value) : Prop where
  congr : ∀ {a b : Value}, (a == b) = true → (a == k) = (b == k)
  joins : ∀ {a b : Value}, (a == k) = true → (b == k) = true → (a == b) = true

theorem steady_str (s : String) : Steady (.str s) where
  congr := by
    intro a b h
    rw [Bool.eq_iff_iff, beq_str, beq_str]
    constructor
    · rintro rfl
      exact str_beq.mp h
    · rintro rfl
      exact beq_str.mp h
  joins := by
    intro a b ha hb
    rw [beq_str.mp ha, beq_str.mp hb]
    exact beq_str.mpr rfl

/-- An integer in the units of doubles. -/
def wholeUnits (n : Int) : Int := n * Double.unitsPerOne

theorem wholeUnits_inj {m n : Int} : wholeUnits m = wholeUnits n ↔ m = n := by
  have hUnits : Double.unitsPerOne ≠ 0 := by decide +kernel
  exact Int.mul_eq_mul_right_iff (Int.natCast_ne_zero.mpr hUnits)

/-- A finite number in the units of doubles. -/
def inUnits? : Value → Option Int
  | .bool b => some (wholeUnits (ofBool b))
  | .int n => some (wholeUnits n)
  | .float (.finite negative m) => some (Double.signedUnits negative m)
  | _ => none

theorem isInt_iff {x : Double} {n : Int} :
    x.isInt n = true ↔ inUnits? (.float x) = some (wholeUnits n) := by
  cases x with
  | finite negative m =>
    rw [inUnits?, Option.some.injEq]
    exact beq_iff_eq
  | infinite _ | nan => exact ⟨nofun, nofun⟩

theorem ofBool_inj {a b : Bool} : ofBool a = ofBool b ↔ a = b := by
  cases a <;> cases b <;> decide

/-- An integer is the same as what amounts to it, on either side. -/
theorem beq_int {v : Value} {n : Int} :
    (v == .int n) = true ↔ inUnits? v = some (wholeUnits n) := by
  show same v (.int n) = true ↔ _
  cases v with
  | float x => simp only [same, sameScalar, isInt_iff]
  | _ => simp [same, sameScalar, inUnits?, wholeUnits_inj]

/-- What is the same amounts to the same. -/
theorem inUnits?_eq_of_beq {v w : Value} (h : (v == w) = true) : inUnits? v = inUnits? w := by
  replace h : same v w = true := h
  cases v with
  | float x =>
    cases w with
    | float y =>
      rw [same, sameScalar] at h
      · cases x <;> cases y <;> simp_all [Double.numEq, inUnits?]
      all_goals simp
    | bool _ | int _ => exact isInt_iff.mp (by simpa only [same, sameScalar] using h)
    | _ => simp [same, sameScalar] at h
  | bool _ | int _ =>
    cases w with
    | float y => exact (isInt_iff.mp (by simpa only [same, sameScalar] using h)).symm
    | _ => simp_all [same, sameScalar, inUnits?]
  | _ => cases w <;> simp_all [same, sameScalar, inUnits?]

/-- Numbers that amount to the same are the same. -/
theorem beq_of_inUnits? {v w : Value} {u : Int} (hv : inUnits? v = some u)
    (hw : inUnits? w = some u) : (v == w) = true := by
  show same v w = true
  cases v with
  | float x =>
    cases w with
    | float y => cases x <;> cases y <;> simp_all [same, sameScalar, Double.numEq, inUnits?]
    | bool _ | int _ =>
      cases hw
      simpa only [same, sameScalar] using isInt_iff.mpr hv
    | _ => cases hw
  | bool _ | int _ =>
    cases hv
    cases w with
    | float y => simpa only [same, sameScalar] using isInt_iff.mpr hw
    | bool _ | int _ =>
      simp only [inUnits?, Option.some.injEq, wholeUnits_inj] at hw
      simp_all [same, sameScalar, ofBool_inj]
    | _ => cases hw
  | _ => cases hv

theorem steady_int (n : Int) : Steady (.int n) where
  congr := by
    intro a b h
    rw [Bool.eq_iff_iff, beq_int, beq_int, inUnits?_eq_of_beq h]
  joins := by
    intro a b ha hb
    exact beq_of_inUnits? (beq_int.mp ha) (beq_int.mp hb)

end Value

-- ---------------------------------------------------------------------------
-- Looking up after putting
-- ---------------------------------------------------------------------------

section Putting

variable {d top : Entries} {k k' v : Value}

theorem get?_put_of_beq (hSteady : Steady k) (h : (k' == k) = true) :
    Dictionary.get? (Dictionary.put d k' v) k = some v := by
  induction d with
  | nil => simp [Dictionary.put, Dictionary.get?, h]
  | cons e es ih =>
    obtain ⟨a, w⟩ := e
    rw [Dictionary.put]
    split
    · rename_i hSame
      rw [Dictionary.get?, if_pos ((hSteady.congr hSame).trans h)]
    · rename_i hOther
      have hKey : (a == k) ≠ true := fun hKey => hOther (hSteady.joins hKey h)
      rw [Dictionary.get?, if_neg hKey, ih]

theorem get?_put_of_not_beq (hSteady : Steady k) (h : (k' == k) = false) :
    Dictionary.get? (Dictionary.put d k' v) k = Dictionary.get? d k := by
  induction d with
  | nil => simp [Dictionary.put, Dictionary.get?, h]
  | cons e es ih =>
    obtain ⟨a, w⟩ := e
    rw [Dictionary.put]
    split
    · rename_i hSame
      have hKey : (a == k) = false := (hSteady.congr hSame).trans h
      rw [Dictionary.get?, Dictionary.get?, hKey]
      rfl
    · rw [Dictionary.get?, Dictionary.get?, ih]

/-- What is laid over a dictionary comes before what it holds. -/
theorem get?_overlay (hSteady : Steady k) (d top : Entries) :
    Dictionary.get? (Dictionary.overlay d top) k =
      (Dictionary.get? (Dictionary.ofEntries top) k).or (Dictionary.get? d k) := by
  unfold Dictionary.ofEntries Dictionary.overlay
  induction top generalizing d with
  | nil => rfl
  | cons e es ih =>
    have hPut : ∀ d, Dictionary.get? (Dictionary.put d e.1 e.2) k =
        (if (e.1 == k) = true then some e.2 else none).or (Dictionary.get? d k) := by
      intro d
      split
      · exact get?_put_of_beq hSteady ‹_›
      · exact get?_put_of_not_beq hSteady (Bool.not_eq_true _ ▸ ‹_›)
    simp only [List.foldl_cons]
    rw [ih (Dictionary.put d e.1 e.2), ih (Dictionary.put [] e.1 e.2), hPut d, hPut [],
      Dictionary.get?, Option.or_none, Option.or_assoc]

/-- A key that is not among the entries laid over a dictionary keeps its value. -/
theorem get?_overlay_of_none (hSteady : Steady k) (h : Dictionary.get? top k = none) :
    Dictionary.get? (Dictionary.overlay d top) k = Dictionary.get? d k := by
  unfold Dictionary.overlay
  induction top generalizing d with
  | nil => rfl
  | cons e es ih =>
    obtain ⟨hHead, hRest⟩ := List.forall_mem_cons.mp (Dictionary.get?_eq_none_iff.mp h)
    rw [List.foldl_cons, ih (Dictionary.get?_eq_none_iff.mpr hRest),
      get?_put_of_not_beq hSteady hHead]

/-- A key that is among them has the value it has there. -/
theorem get?_overlay_of_some (hSteady : Steady k) (hDistinct : Dictionary.Distinct top)
    (h : Dictionary.get? top k = some v) :
    Dictionary.get? (Dictionary.overlay d top) k = some v := by
  unfold Dictionary.overlay
  induction top generalizing d with
  | nil => cases h
  | cons e es ih =>
    obtain ⟨a, w⟩ := e
    obtain ⟨hHead, hRest⟩ := List.pairwise_cons.mp hDistinct
    rw [Dictionary.get?] at h
    split at h
    · rename_i hKey
      cases h
      -- no later key is the same, so the value stays
      have hNone : Dictionary.get? es k = none := by
        rw [Dictionary.get?_eq_none_iff]
        intro f hf
        rw [← Bool.not_eq_true]
        intro hLater
        exact absurd (hSteady.joins hKey hLater) (by rw [hHead f hf]; exact Bool.false_ne_true)
      rw [List.foldl_cons]
      exact (get?_overlay_of_none hSteady hNone).trans (get?_put_of_beq hSteady hKey)
    · exact ih hRest h

/-- What was erased is not found. -/
theorem get?_erase_self (d : Entries) (k : Value) :
    Dictionary.get? (Dictionary.erase d k) k = none := by
  rw [Dictionary.get?_eq_none_iff]
  intro e he
  simpa using (List.mem_filter.mp he).2

theorem get?_erase_of_ne {s : String} (hKey : k ≠ .str s) :
    Dictionary.get? (Dictionary.erase d (.str s)) k = Dictionary.get? d k := by
  unfold Dictionary.erase
  induction d with
  | nil => rfl
  | cons e es ih =>
    obtain ⟨a, w⟩ := e
    rw [List.filter_cons, Dictionary.get?]
    split
    · rw [Dictionary.get?, ih]
    · rename_i hErased
      have hText : a = .str s := by simpa using hErased
      have hOther : (a == k) ≠ true := by
        rw [hText, ne_eq, str_beq]
        exact hKey
      rw [if_neg hOther, ih]

end Putting

end ClientGen.Document
