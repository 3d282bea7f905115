import ClientGen.Naming.Resolved
import ClientGen.Proofs.Naming.Fresh

/-!
# Pascal case, one character at a time

`pascal` cuts a text into words and writes the capitalised words together. To
say what it does to a text with something appended, this module reads it as a
single pass with one bit of state, whether the last character was inside a word
(`pascalFrom`), and follows a numbered duplicate through it: the number
survives, so the request classes of two duplicates of one name differ.

Main results:

* `toList_pascal` — the single pass computes the pascal case.
* `requestClass_duplicate` — the request class of a duplicate of a name ends in
  `Duplicate`, the number and `Request`, after a part that no number changes.
* `requestClass_duplicate_inj` — duplicates with different numbers have
  different request classes.
-/

namespace ClientGen.Naming

open ClientGen.Text

-- ---------------------------------------------------------------------------
-- The single pass
-- ---------------------------------------------------------------------------

/-- Keep the letters and digits, the first of each word in upper case. The flag
says whether the character before the text belongs to a word. -/
def pascalFrom (inWord : Bool) : List Char → List Char
  | [] => []
  | c :: rest =>
    if c.isAlphanum then (if inWord then c else c.toUpper) :: pascalFrom true rest
    else pascalFrom false rest

/-- After the first character of a word, the pass writes the rest of the word
as it is and goes on with the words that follow. -/
private theorem wordsOf_flatMap (cs : List Char) :
    (wordsOf Char.isAlphanum cs).flatMap capitalize = pascalFrom false cs ∧
      ∀ c : Char, c.isAlphanum = true → ∃ w ws, wordsOf Char.isAlphanum (c :: cs) = (c :: w) :: ws ∧
        w ++ ws.flatMap capitalize = pascalFrom true cs := by
  induction cs with
  | nil =>
    refine ⟨rfl, fun c hc => ⟨[], [], ?_, rfl⟩⟩
    simp [wordsOf, hc]
  | cons d rest ih =>
    obtain ⟨ihWords, ihWord⟩ := ih
    have hWords : (wordsOf Char.isAlphanum (d :: rest)).flatMap capitalize =
        pascalFrom false (d :: rest) := by
      by_cases hd : d.isAlphanum = true
      · obtain ⟨w, ws, hw, hRest⟩ := ihWord d hd
        rw [hw, List.flatMap_cons, capitalize, List.cons_append, hRest]
        simp [pascalFrom, hd]
      · simp only [wordsOf, pascalFrom, hd]
        exact ihWords
    refine ⟨hWords, fun c hc => ?_⟩
    by_cases hd : d.isAlphanum = true
    · -- the word goes on with `d`
      obtain ⟨w, ws, hw, hRest⟩ := ihWord d hd
      refine ⟨d :: w, ws, ?_, ?_⟩
      · rw [wordsOf, if_pos hc]
        simp only [hd, if_true, hw]
      · simp [pascalFrom, hd, hRest]
    · -- the word ends before `d`
      refine ⟨[], wordsOf Char.isAlphanum (d :: rest), ?_, ?_⟩
      · rw [wordsOf, if_pos hc]
        simp [hd]
      · rw [List.nil_append, hWords]
        simp [pascalFrom, hd]

/-- The single pass computes the pascal case. -/
theorem toList_pascal (value : String) : (pascal value).toList = pascalFrom false value.toList := by
  rw [pascal, String.toList_ofList]
  exact (wordsOf_flatMap value.toList).1

/-- The flag after a text that was begun with the given flag. -/
def endsInWord (inWord : Bool) : List Char → Bool
  | [] => inWord
  | c :: rest => endsInWord c.isAlphanum rest

theorem pascalFrom_append (inWord : Bool) (xs ys : List Char) :
    pascalFrom inWord (xs ++ ys) =
      pascalFrom inWord xs ++ pascalFrom (endsInWord inWord xs) ys := by
  induction xs generalizing inWord with
  | nil => rfl
  | cons x xs ih =>
    rw [List.cons_append, pascalFrom, pascalFrom, endsInWord, ih, ih]
    by_cases hx : x.isAlphanum = true
    · simp [hx]
    · simp [hx]

/-- Letters and digits after the first one are written as they are. -/
theorem pascalFrom_of_all {cs : List Char} (h : ∀ c ∈ cs, c.isAlphanum = true) :
    pascalFrom true cs = cs := by
  induction cs with
  | nil => rfl
  | cons c rest ih =>
    rw [pascalFrom, if_pos (h c List.mem_cons_self), if_pos rfl,
      ih fun d hd => h d (List.mem_cons_of_mem _ hd)]

-- ---------------------------------------------------------------------------
-- Duplicates
-- ---------------------------------------------------------------------------

private theorem toList_duplicateWord :
    "Duplicate".toList = ['D', 'u', 'p', 'l', 'i', 'c', 'a', 't', 'e'] := rfl

private theorem toList_requestWord :
    "Request".toList = ['R', 'e', 'q', 'u', 'e', 's', 't'] := rfl

/-- What a duplicate adds to its name. -/
def duplicateMark (n : Nat) : List Char := "Duplicate".toList ++ (toString n).toList

theorem toList_duplicate (base : String) (n : Nat) :
    (Claims.duplicate base n).toList = base.toList ++ duplicateMark n := by
  unfold Claims.duplicate duplicateMark
  rw [String.toList_append, String.toList_append, List.append_assoc]

theorem isDigit_of_mem_toString {n : Nat} {c : Char} (h : c ∈ (toString n).toList) :
    c.isDigit = true := by
  rw [Nat.toString_eq_repr, Nat.toList_repr] at h
  exact Nat.isDigit_of_mem_toDigits (by decide) (by decide) h

theorem toList_toString_ne_nil (n : Nat) : (toString n).toList ≠ [] := by
  rw [Nat.toString_eq_repr, Nat.toList_repr]
  exact Nat.toDigits_ne_nil

/-- There is no digit in the text. -/
def DigitFree (text : String) : Prop := ∀ c ∈ text.toList, c.isDigit = false

instance (text : String) : Decidable (DigitFree text) :=
  decidable_of_iff (text.toList.all (! ·.isDigit)) (by simp [DigitFree])

/-- Such a text does not end in a number. -/
theorem append_number_ne {text : String} (hText : DigitFree text) (s : String) (n : Nat) :
    s ++ toString n ≠ text := by
  rintro rfl
  obtain ⟨c, hc⟩ := List.exists_mem_of_ne_nil _ (toList_toString_ne_nil n)
  have hDigit := isDigit_of_mem_toString hc
  rw [hText c (String.toList_append ▸ List.mem_append_right _ hc)] at hDigit
  cases hDigit

theorem isAlphanum_of_mem_duplicateMark {n : Nat} {c : Char} (h : c ∈ duplicateMark n) :
    c.isAlphanum = true := by
  rcases List.mem_append.mp h with h | h
  · have hWord : "Duplicate".toList.all Char.isAlphanum = true := by
      rw [toList_duplicateWord]
      rfl
    exact List.all_eq_true.mp hWord c h
  · simp [Char.isAlphanum, isDigit_of_mem_toString h]

/-- The mark starts with a capital, so it is written as it is wherever it stands. -/
theorem pascalFrom_duplicateMark (inWord : Bool) (n : Nat) :
    pascalFrom inWord (duplicateMark n) = duplicateMark n := by
  have hRest : pascalFrom true (duplicateMark n).tail = (duplicateMark n).tail :=
    pascalFrom_of_all fun c hc => isAlphanum_of_mem_duplicateMark (List.mem_of_mem_tail hc)
  show pascalFrom inWord ('D' :: (duplicateMark n).tail) = 'D' :: (duplicateMark n).tail
  rw [pascalFrom, hRest]
  cases inWord <;> rfl

theorem toList_pascal_duplicate (base : String) (n : Nat) :
    (pascal (Claims.duplicate base n)).toList = (pascal base).toList ++ duplicateMark n := by
  rw [toList_pascal, toList_duplicate, pascalFrom_append, pascalFrom_duplicateMark, toList_pascal]

theorem filter_duplicateMark (n : Nat) :
    (duplicateMark n).filter isIdentifierChar = duplicateMark n := by
  rw [List.filter_eq_self]
  intro c hc
  simp [isIdentifierChar, isAlphanum_of_mem_duplicateMark hc]

/-- The class name of a duplicate ends in its mark; what stands before the mark
does not depend on the number. -/
theorem className_duplicate (base guard : String) :
    ∃ lead : List Char, ∀ n, (className (Claims.duplicate base n) guard).toList =
      lead ++ duplicateMark n := by
  let kept := (pascal base).toList.filter isIdentifierChar
  refine ⟨(if startsWithDigit kept then guard.toList else []) ++ kept, fun n => ?_⟩
  have hKept : (pascal (Claims.duplicate base n)).toList.filter isIdentifierChar =
      kept ++ duplicateMark n := by
    rw [toList_pascal_duplicate, List.filter_append, filter_duplicateMark]
  -- the mark is not empty and starts with a letter, so only `kept` can call for the guard
  have hDigit : startsWithDigit (kept ++ duplicateMark n) = startsWithDigit kept := by
    cases kept <;> rfl
  have hEmpty : (kept ++ duplicateMark n).isEmpty = false := by
    cases kept <;> rfl
  rw [className, identifier, hKept, hDigit, hEmpty]
  cases startsWithDigit kept <;> simp

theorem not_endsWith_request {name : String} {lead : List Char} {n : Nat}
    (h : name.toList = lead ++ duplicateMark n) : name.endsWith "Request" = false := by
  rw [← Bool.not_eq_true, String.endsWith_eq_endsWith_toSlice, String.Slice.endsWith_string_iff]
  rintro ⟨rest, hRest⟩
  unfold duplicateMark at h
  rw [String.copy_toSlice, h, ← List.append_assoc] at hRest
  -- the last character would be both `t` and a digit
  have hLast := congrArg List.getLast? hRest
  rw [List.getLast?_append_of_ne_nil _ (toList_toString_ne_nil n), toList_requestWord,
    List.getLast?_append_of_ne_nil rest (List.cons_ne_nil _ _)] at hLast
  have hDigit : 't'.isDigit = true := isDigit_of_mem_toString (List.mem_of_getLast? hLast.symm)
  exact absurd hDigit (by decide)

/-- The request class of a duplicate consists of a part without the number, the
mark with the number, and `Request`. -/
theorem requestClass_duplicate (base : String) :
    ∃ lead : List Char, ∀ n, (requestClass (Claims.duplicate base n)).toList =
      lead ++ duplicateMark n ++ "Request".toList := by
  obtain ⟨lead, hLead⟩ := className_duplicate base "Request"
  refine ⟨lead, fun n => ?_⟩
  rw [requestClass]
  simp only [not_endsWith_request (hLead n), Bool.false_eq_true, if_false, String.toList_append,
    hLead n]

theorem duplicateMark_inj {m n : Nat} (h : duplicateMark m = duplicateMark n) : m = n :=
  toString_inj (String.toList_inj.mp (List.append_cancel_left h))

/-- Duplicates with different numbers are different names. -/
theorem duplicate_inj {base : String} {m n : Nat}
    (h : Claims.duplicate base m = Claims.duplicate base n) : m = n := by
  have hLists := congrArg String.toList h
  rw [toList_duplicate, toList_duplicate] at hLists
  exact duplicateMark_inj (List.append_cancel_left hLists)

theorem duplicate_ne_self (base : String) (n : Nat) : Claims.duplicate base n ≠ base := by
  intro h
  have hLists := congrArg String.toList h
  rw [toList_duplicate, List.append_right_eq_self] at hLists
  exact absurd hLists (List.cons_ne_nil _ _)

/-- Duplicates with different numbers have different request classes. -/
theorem requestClass_duplicate_inj {base : String} {m n : Nat}
    (h : requestClass (Claims.duplicate base m) = requestClass (Claims.duplicate base n)) :
    m = n := by
  obtain ⟨lead, hLead⟩ := requestClass_duplicate base
  have hLists := congrArg String.toList h
  rw [hLead, hLead] at hLists
  exact duplicateMark_inj (List.append_cancel_left (List.append_cancel_right hLists))

end ClientGen.Naming
