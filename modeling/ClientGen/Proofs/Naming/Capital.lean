import ClientGen.Proofs.Naming.Pascal
import ClientGen.Proofs.Text.Letters
import Mathlib.Data.List.Basic

/-!
# Names that start with a capital

Class names are made by writing capitalised words together and guarding what would be
empty or start with a digit. So they start with a capital, which keeps them apart from
the names of modules and functions. Request classes end alike as well.

Main results: `capital_identifier`, `requestClass_getLast?`.
-/

namespace ClientGen.Naming

open ClientGen.Text

/-- Do the characters start with an ASCII capital? -/
def startsWithCapital : List Char → Bool
  | [] => false
  | c :: _ => c.isUpper

/-- The name starts with a capital. -/
def Capital (name : String) : Prop := startsWithCapital name.toList = true

instance (name : String) : Decidable (Capital name) := inferInstanceAs (Decidable (_ = true))

theorem Capital.append {s : String} (h : Capital s) (t : String) : Capital (s ++ t) := by
  unfold Capital at *
  rw [String.toList_append]
  cases hChars : s.toList with
  | nil =>
    rw [hChars] at h
    cases h
  | cons c rest =>
    rw [hChars] at h
    exact h

/-- The characters start with a capital or with a digit, if there are any. -/
def Guardable (cs : List Char) : Prop := ∀ c ∈ cs.head?, c.isUpper = true ∨ c.isDigit = true

theorem guardable_nil : Guardable [] := fun _ hMem => nomatch hMem

theorem guardable_cons {c : Char} {rest : List Char} :
    Guardable (c :: rest) ↔ c.isUpper = true ∨ c.isDigit = true := by
  simp [Guardable]

instance : (cs : List Char) → Decidable (Guardable cs)
  | [] => isTrue guardable_nil
  | _ :: _ => decidable_of_iff _ guardable_cons.symm

theorem Guardable.append {cs ds : List Char} (hcs : Guardable cs) (hds : Guardable ds) :
    Guardable (cs ++ ds) := by
  cases cs with
  | nil => exact hds
  | cons _ _ => exact hcs

/-- Words that are written together start with a capital or with a digit. -/
theorem guardable_pascal (value : String) : Guardable (pascal value).toList := by
  rw [toList_pascal]
  induction value.toList with
  | nil => exact guardable_nil
  | cons c rest ih =>
    rw [pascalFrom]
    split
    · rename_i hAlphanum
      rw [if_neg Bool.false_ne_true, guardable_cons]
      cases hLower : c.isLower with
      | true => exact Or.inl (isUpper_toUpper hLower)
      | false =>
        rw [toUpper_eq_self hLower]
        simpa [isAlphanum_iff, isAlpha_iff, hLower] using hAlphanum
    · exact ih

/-- A guarded name starts with a capital. -/
theorem capital_identifier {value guard : String} (hValue : Guardable value.toList)
    (hGuard : Capital guard) : Capital (identifier value guard) := by
  unfold identifier
  dsimp only
  cases hChars : value.toList with
  | nil => exact hGuard.append _
  | cons c rest =>
    rw [hChars, guardable_cons] at hValue
    have hAlphanum : c.isAlphanum = true :=
      isAlphanum_iff.mpr (hValue.imp_left fun hUpper => isAlpha_iff.mpr (Or.inl hUpper))
    have hKept : isIdentifierChar c = true := Bool.or_eq_true_iff.mpr (Or.inl hAlphanum)
    rw [List.filter_cons_of_pos hKept]
    split
    · exact hGuard.append _
    · rename_i hPlain
      have hDigit : c.isDigit = false := by simpa [startsWithDigit] using hPlain
      unfold Capital
      rw [String.toList_ofList]
      exact hValue.resolve_right (by rw [hDigit]; exact Bool.false_ne_true)

theorem capital_className (value : String) {guard : String} (hGuard : Capital guard) :
    Capital (className value guard) :=
  capital_identifier (guardable_pascal value) hGuard

theorem capital_resourceClass (collection : String) : Capital (resourceClass collection) :=
  capital_className collection (by decide)

theorem capital_requestClass (name : String) : Capital (requestClass name) := by
  have hWords : Capital (className name "Request") := capital_className name (by decide)
  unfold requestClass
  dsimp only
  split
  · exact hWords
  · exact hWords.append _

/-- A request class ends in the word that request classes end in. -/
theorem suffix_requestClass (name : String) : "Request".toList <:+ (requestClass name).toList := by
  unfold requestClass
  dsimp only
  split
  · rename_i hEnds
    rw [String.endsWith_eq_endsWith_toSlice, String.Slice.endsWith_string_iff] at hEnds
    rwa [String.copy_toSlice] at hEnds
  · rw [String.toList_append]
    exact List.suffix_append _ _

theorem endsWith_requestClass (name : String) : (requestClass name).endsWith "Request" = true := by
  rw [String.endsWith_eq_endsWith_toSlice, String.Slice.endsWith_string_iff, String.copy_toSlice]
  exact suffix_requestClass name

/-- The last letter is that of the word. -/
theorem requestClass_getLast? (name : String) : (requestClass name).toList.getLast? = some 't' := by
  obtain ⟨rest, hRest⟩ := suffix_requestClass name
  rw [← hRest]
  exact List.getLast?_append_of_ne_nil rest (List.cons_ne_nil 'R' _)

end ClientGen.Naming
