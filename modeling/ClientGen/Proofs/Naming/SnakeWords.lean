import ClientGen.Naming.Identifier
import ClientGen.Proofs.Text.Letters
import ClientGen.Proofs.Text.Runs
import Mathlib.Data.List.Chain

/-!
# Words in snake case

The argument of a parameter is named by a word: small letters and digits with single
underscores between them, which is what the name of the parameter comes to. The word is
dressed where it cannot stand as it is, with an underscore before a digit and one after a
reserved word. The name that comes out finds the same word again, since its case has nothing
left to change (`snakeChars_eq_self`) and the underscores at its ends are taken off before
they are put back. So it is its own name.

Main results:

* `snakeChars_eq_self` — what is in snake case stays as it is.
* `exists_snakeWord` — behind each argument there is a word.
* `argumentName_dressed` — the argument that is made of a word is named by this word.
-/

namespace ClientGen.Naming

open ClientGen.Text

-- ---------------------------------------------------------------------------
-- Case
-- ---------------------------------------------------------------------------

theorem not_isUpper_of_snake {c : Char} (h : isSnakeChar c = true) : c.isUpper = false := by
  simp only [isSnakeChar, Bool.or_eq_true, beq_iff_eq] at h
  rcases h with (hLower | hDigit) | rfl
  · exact not_isUpper_of_isLower hLower
  · exact not_isUpper_of_isDigit hDigit
  · decide

theorem ascii_of_snake {c : Char} (h : isSnakeChar c = true) : c.toNat < 0x80 := by
  simp only [isSnakeChar, Bool.or_eq_true, beq_iff_eq] at h
  rcases h with (hLower | hDigit) | rfl
  · exact ascii_of_isAlphanum (isAlphanum_iff.mpr (Or.inl (isAlpha_iff.mpr (Or.inr hLower))))
  · exact ascii_of_isAlphanum (isAlphanum_iff.mpr (Or.inr hDigit))
  · decide

/-- On ASCII, lower case is that of each character: no letter is a sigma, whose case would depend on its
place. -/
theorem lower_ascii {cs : List Char} (h : ∀ c ∈ cs, c.toNat < 0x80) : lower cs = cs.map Char.toLower := by
  have hAfter : ∀ before, lowerAfter before cs = cs.map Char.toLower := by
    induction cs with
    | nil => exact fun _ => rfl
    | cons c rest ih =>
      obtain ⟨hc, hRest⟩ := List.forall_mem_cons.mp h
      intro before
      have hPlain : (c == 'Σ') = false := by
        rw [beq_eq_false_iff_ne]
        rintro rfl
        exact absurd hc (by decide)
      rw [lowerAfter, hPlain, lowerChar, if_pos hc, ih hRest]
      rfl
  exact hAfter []

section Snake

variable {cs : List Char} (h : ∀ c ∈ cs, isSnakeChar c = true)
include h

theorem lower_eq_self : lower cs = cs := by
  rw [lower_ascii fun c hc => ascii_of_snake (h c hc)]
  refine (List.map_congr_left fun c hc => ?_).trans (List.map_id cs)
  exact toLower_eq_self (not_isUpper_of_snake (h c hc))

/-- Without capitals there is nowhere to split. -/
theorem splitAcronyms_eq_self : splitAcronyms cs = cs := by
  fun_induction splitAcronyms cs with
  | case1 a b c rest hSplit ih =>
    simp [not_isUpper_of_snake (h a List.mem_cons_self)] at hSplit
  | case2 a b c rest _ ih => rw [ih fun d hd => h d (List.mem_cons_of_mem _ hd)]
  | case3 => rfl

theorem splitHumps_eq_self : splitHumps cs = cs := by
  fun_induction splitHumps cs with
  | case1 a b rest hSplit ih =>
    simp [not_isUpper_of_snake (h b (by simp))] at hSplit
  | case2 a b rest _ ih => rw [ih fun d hd => h d (List.mem_cons_of_mem _ hd)]
  | case3 => rfl

/-- What is in snake case stays as it is. -/
theorem snakeChars_eq_self : snakeChars cs = cs := by
  rw [snakeChars, splitAcronyms_eq_self h, splitHumps_eq_self h, lower_eq_self h]

end Snake

-- ---------------------------------------------------------------------------
-- Words
-- ---------------------------------------------------------------------------

/-- Small letters and digits, with single underscores between them. -/
structure IsSnakeWord (cs : List Char) : Prop where
  nonempty : cs ≠ []
  chars : ∀ c ∈ cs, isSnakeChar c = true
  parted : Parted '_' cs
  first : ∀ c ∈ cs.head?, c ≠ '_'
  last : ∀ c ∈ cs.getLast?, c ≠ '_'

theorem isSnakeWord_iff {cs : List Char} : IsSnakeWord cs ↔
    cs ≠ [] ∧ cs.all isSnakeChar = true ∧ Parted '_' cs ∧ cs.head?.all (· != '_') = true ∧
      cs.getLast?.all (· != '_') = true := by
  simp only [List.all_eq_true, Option.all_eq_true, bne_iff_ne]
  exact ⟨fun h => ⟨h.nonempty, h.chars, h.parted, h.first, h.last⟩,
    fun ⟨hSome, hChars, hParted, hFirst, hLast⟩ => ⟨hSome, hChars, hParted, hFirst, hLast⟩⟩

instance (cs : List Char) : Decidable (IsSnakeWord cs) := decidable_of_iff _ isSnakeWord_iff.symm

/-- What the name of a parameter comes to, before it is made an identifier. -/
def argumentWord (cs : List Char) : List Char :=
  replaceRuns (· == '_') '_' (trim (· == '_') (replaceRuns (! isSnakeChar ·) '_' (snakeChars cs)))

theorem isSnakeWord_argumentWord {cs : List Char} (h : argumentWord cs ≠ []) :
    IsSnakeWord (argumentWord cs) := by
  unfold argumentWord at h ⊢
  generalize hMarked : replaceRuns (! isSnakeChar ·) '_' (snakeChars cs) = marked at h ⊢
  have hChars : ∀ c ∈ marked, isSnakeChar c = true := by
    intro c hc
    rw [← hMarked] at hc
    rcases mem_replaceRuns hc with rfl | ⟨-, hKept⟩
    · decide
    · simpa using hKept
  refine ⟨h, ?_, parted_replaceRuns (by decide) _, ?_, ?_⟩
  · intro c hc
    rcases mem_replaceRuns hc with rfl | ⟨hMem, -⟩
    · decide
    · exact hChars c (mem_trim hMem)
  · -- trimming leaves no underscore at the ends, and writing single ones brings none there
    have hFirst : ∀ d ∈ (trim (· == '_') marked).head?, (d == '_') = false := fun d hd =>
      trim_head? (p := (· == '_')) hd
    intro c hc
    cases hTrimmed : trim (· == '_') marked with
    | nil =>
      rw [hTrimmed] at hc
      cases hc
    | cons d rest =>
      have hd : (d == '_') = false := hFirst d (by rw [hTrimmed]; rfl)
      rw [hTrimmed, head?_replaceRuns, hd, Option.mem_some_iff] at hc
      subst hc
      simpa using hd
  · intro c hc
    rw [getLast?_replaceRuns, Option.mem_def, Option.map_eq_some_iff] at hc
    obtain ⟨d, hLast, rfl⟩ := hc
    have hd : (d == '_') = false := trim_getLast? (p := (· == '_')) hLast
    rw [hd, if_neg Bool.false_ne_true]
    simpa using hd

/-- Nothing is done to single underscores but at the ends. -/
theorem argumentWord_of_parted {cs : List Char} (hChars : ∀ c ∈ cs, isSnakeChar c = true)
    (hParted : Parted '_' cs) : argumentWord cs = trim (· == '_') cs := by
  have hMarked : replaceRuns (! isSnakeChar ·) '_' cs = cs :=
    replaceRuns_eq_self (fun c hc hOther => by simp [hChars c hc] at hOther) hParted
  rw [argumentWord, snakeChars_eq_self hChars, hMarked]
  exact replaceRuns_eq_self (fun c _ hMark => beq_iff_eq.mp hMark)
    (hParted.of_isInfix (trim_isInfix _ _))

/-- The word that stands in for a name without letters and digits. -/
theorem isSnakeWord_value : IsSnakeWord "value".toList := by
  rw [show "value".toList = ['v', 'a', 'l', 'u', 'e'] from rfl]
  decide

-- ---------------------------------------------------------------------------
-- Arguments
-- ---------------------------------------------------------------------------

/-- A word that does not start with a digit: an underscore comes before one. -/
def guardedWord (word : List Char) : List Char := if startsWithDigit word then '_' :: word else word

/-- Is the text reserved, by the language or for something else in a method? -/
def isReserved (text : String) : Bool := isKeyword text || reservedArguments.contains text

/-- A word as an argument. -/
def dressed (word : List Char) : String :=
  if isReserved (.ofList (guardedWord word)) then .ofList (guardedWord word) ++ "_"
  else .ofList (guardedWord word)

theorem argumentName_eq (name : String) : argumentName name =
    dressed (if (argumentWord name.toList).isEmpty then "value".toList else argumentWord name.toList) :=
  rfl

/-- **Words.** Behind each argument there is one. -/
theorem exists_snakeWord (name : String) : ∃ word, IsSnakeWord word ∧ argumentName name = dressed word := by
  refine ⟨_, ?_, argumentName_eq name⟩
  split
  · exact isSnakeWord_value
  · rename_i hSome
    exact isSnakeWord_argumentWord (by simpa using hSome)

section Word

variable {word : List Char} (h : IsSnakeWord word)
include h

theorem guardedWord_ne_nil : guardedWord word ≠ [] := by
  unfold guardedWord
  split
  · exact List.cons_ne_nil _ _
  · exact h.nonempty

theorem guardedWord_chars : ∀ c ∈ guardedWord word, isSnakeChar c = true := by
  unfold guardedWord
  split
  · exact List.forall_mem_cons.mpr ⟨by decide, h.chars⟩
  · exact h.chars

theorem guardedWord_parted : Parted '_' (guardedWord word) := by
  unfold guardedWord
  split
  · exact h.parted.cons h.first
  · exact h.parted

theorem trim_guardedWord : trim (· == '_') (guardedWord word) = word := by
  have hWord : trim (· == '_') word = word := trim_mark_eq_self h.first h.last
  unfold guardedWord
  split
  · rw [trim_cons (by decide), hWord]
  · exact hWord

theorem guardedWord_getLast? : (guardedWord word).getLast? = word.getLast? := by
  unfold guardedWord
  split
  · exact List.getLast?_cons_of_ne_nil h.nonempty
  · rfl

/-- The word is found again under its dress. -/
theorem argumentWord_dressed : argumentWord (dressed word).toList = word := by
  unfold dressed
  split
  · rw [String.toList_append, String.toList_ofList]
    show argumentWord (guardedWord word ++ ['_']) = word
    rw [argumentWord_of_parted, trim_snoc (by decide), trim_guardedWord h]
    · intro c hc
      rcases List.mem_append.mp hc with hc | hc
      · exact guardedWord_chars h c hc
      · rw [List.mem_singleton.mp hc]
        decide
    · refine (guardedWord_parted h).append (List.isChain_singleton _) ?_
      rw [guardedWord_getLast? h]
      exact h.last
  · rw [String.toList_ofList, argumentWord_of_parted (guardedWord_chars h) (guardedWord_parted h),
      trim_guardedWord h]

/-- So an argument that is made of a word is named by the word. -/
theorem argumentName_dressed : argumentName (dressed word) = dressed word := by
  rw [argumentName_eq, argumentWord_dressed h, if_neg]
  simpa using h.nonempty

end Word

end ClientGen.Naming
