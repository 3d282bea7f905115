import ClientGen.Proofs.Naming.Arguments
import ClientGen.Proofs.Naming.Capital

/-!
# Identifiers of the generated code

A name that is written into the generated code has to be an identifier there, and no
reserved word. Reserved words are made of letters only, so a name is told apart from
all of them by a single underscore or digit.

Arguments are kept apart from the reserved words. Classes are not: their names are
guarded against being empty and against a leading digit only, so a text that spells a
reserved word is one.

Main results:

* `isIdentifier_identifier` — whatever a text holds, guarding it gives an identifier.
* `isKeyword_identifier` — it gives a reserved word just where the text spells one.
* `isName_requestClass` — no text spells a request class that is one.
* `isName_freshArgument` — the names of arguments are no reserved words either.
-/

namespace ClientGen.Naming

open ClientGen.Api ClientGen.Document ClientGen.Text

/-- The text is made of ASCII letters, digits and underscores. -/
def IdentifierChars (text : String) : Prop := ∀ c ∈ text.toList, isIdentifierChar c = true

instance (text : String) : Decidable (IdentifierChars text) := decidable_of_iff _ List.all_eq_true

/-- The text is made of such characters, at least one, and does not start with a digit. -/
structure IsIdentifier (text : String) : Prop where
  nonempty : text.toList ≠ []
  chars    : IdentifierChars text
  start    : startsWithDigit text.toList = false

/-- The text is an identifier that the language does not reserve. -/
structure IsName (text : String) : Prop extends IsIdentifier text where
  unreserved : isKeyword text = false

instance (text : String) : Decidable (IsIdentifier text) :=
  decidable_of_iff (text.toList ≠ [] ∧ IdentifierChars text ∧ startsWithDigit text.toList = false)
    ⟨fun ⟨hSome, hChars, hStart⟩ => ⟨hSome, hChars, hStart⟩, fun h => ⟨h.nonempty, h.chars, h.start⟩⟩

instance (text : String) : Decidable (IsName text) :=
  decidable_of_iff (IsIdentifier text ∧ isKeyword text = false)
    ⟨fun ⟨hText, hFree⟩ => ⟨hText, hFree⟩, fun h => ⟨h.toIsIdentifier, h.unreserved⟩⟩

theorem startsWithDigit_append {cs : List Char} (h : cs ≠ []) (ds : List Char) :
    startsWithDigit (cs ++ ds) = startsWithDigit cs := by
  cases cs with
  | nil => exact absurd rfl h
  | cons _ _ => rfl

/-- What goes on with characters of an identifier stays one. -/
theorem IsIdentifier.append {s t : String} (hs : IsIdentifier s) (ht : IdentifierChars t) :
    IsIdentifier (s ++ t) where
  nonempty := by
    rw [String.toList_append]
    exact List.append_ne_nil_of_left_ne_nil hs.nonempty _
  chars := by
    intro c hc
    rw [String.toList_append, List.mem_append] at hc
    exact hc.elim (hs.chars c) (ht c)
  start := by
    rw [String.toList_append, startsWithDigit_append hs.nonempty]
    exact hs.start

/-- A guarded name is an identifier, whatever text it was made of. -/
theorem isIdentifier_identifier {guard : String} (hGuard : IsIdentifier guard) (value : String) :
    IsIdentifier (identifier value guard) := by
  unfold identifier
  dsimp only
  have hKept : ∀ c ∈ value.toList.filter isIdentifierChar, isIdentifierChar c = true := fun c hc =>
    (List.mem_filter.mp hc).2
  generalize value.toList.filter isIdentifierChar = kept at hKept
  split
  · refine hGuard.append ?_
    rwa [IdentifierChars, String.toList_ofList]
  · rename_i hPlain
    rw [Bool.or_eq_true, not_or, List.isEmpty_iff] at hPlain
    refine ⟨?_, ?_, ?_⟩
    · rw [String.toList_ofList]
      exact hPlain.1
    · rwa [IdentifierChars, String.toList_ofList]
    · rw [String.toList_ofList]
      exact Bool.not_eq_true _ ▸ hPlain.2

-- ---------------------------------------------------------------------------
-- Reserved words
-- ---------------------------------------------------------------------------

/-- The words are made of letters only. -/
def Lettered (words : List String) : Prop := ∀ word ∈ words, ∀ c ∈ word.toList, c.isAlpha = true

instance (words : List String) : Decidable (Lettered words) :=
  decidable_of_iff (words.all fun word => word.toList.all Char.isAlpha) (by simp [Lettered])

theorem lettered_keywords : Lettered keywords := by decide +kernel

theorem lettered_reservedMethods : Lettered reservedMethods := by decide +kernel

theorem lettered_reservedArguments : Lettered reservedArguments := by decide +kernel

/-- A text with an underscore or a digit in it is none of such words. -/
theorem Lettered.not_mem {words : List String} (h : Lettered words) {text : String} {c : Char}
    (hMem : c ∈ text.toList) (hOther : c.isAlpha = false) : text ∉ words := by
  intro hText
  rw [h text hText c hMem] at hOther
  cases hOther

/-- So it is not reserved. -/
theorem not_isKeyword_of_mem {word : String} {c : Char} (hMem : c ∈ word.toList)
    (hOther : c.isAlpha = false) : isKeyword word = false :=
  Bool.eq_false_iff.mpr fun hWord =>
    lettered_keywords.not_mem hMem hOther (List.contains_iff_mem.mp hWord)

/-- The text is a name of the language, and none of the words, which are names for something else. -/
structure IsNameBeside (words : List String) (text : String) : Prop extends IsName text where
  other : text ∉ words

section Marks

variable {words : List String} (hWords : Lettered words) {s : String} (hs : IsIdentifier s)
include hs hWords

/-- Going on with what is no letter, an identifier leaves all words of letters. -/
theorem IsIdentifier.beside_append {t : String} (ht : IdentifierChars t) {c : Char}
    (hMark : c ∈ t.toList) (hOther : c.isAlpha = false) : IsNameBeside words (s ++ t) := by
  have hMem : c ∈ (s ++ t).toList := by
    rw [String.toList_append]
    exact List.mem_append_right _ hMark
  exact ⟨⟨hs.append ht, not_isKeyword_of_mem hMem hOther⟩, hWords.not_mem hMem hOther⟩

theorem IsIdentifier.beside_number (n : Nat) : IsNameBeside words (s ++ toString n) := by
  obtain ⟨c, hc⟩ := List.exists_mem_of_ne_nil _ (toList_toString_ne_nil n)
  exact hs.beside_append hWords (isIdentifierChar_of_snake (isSnake_toString n)) hc
    (not_isAlpha_of_isDigit (isDigit_of_mem_toString hc))

end Marks

/-- With a number after it, an identifier is not reserved. -/
theorem IsIdentifier.append_number {s : String} (hs : IsIdentifier s) (n : Nat) :
    IsName (s ++ toString n) :=
  (hs.beside_number lettered_keywords n).toIsName

-- ---------------------------------------------------------------------------
-- Classes
-- ---------------------------------------------------------------------------

/-- What a text spells with the characters that an identifier may hold. -/
def spelling (value : String) : String := .ofList (value.toList.filter isIdentifierChar)

theorem spelling_of_chars {value : String} (h : IdentifierChars value) : spelling value = value := by
  rw [spelling, List.filter_eq_self.mpr h, String.ofList_toList]

/-- Where a text spells a reserved word, no guard is put before it. -/
theorem identifier_of_spelling {value : String} (h : isKeyword (spelling value) = true) (guard : String) :
    identifier value guard = spelling value := by
  unfold spelling at h ⊢
  unfold identifier
  dsimp only
  generalize value.toList.filter isIdentifierChar = kept at h ⊢
  refine if_neg ?_
  rw [Bool.or_eq_true, List.isEmpty_iff, not_or, Bool.not_eq_true]
  cases kept with
  | nil => exact absurd h (by decide)
  | cons c rest =>
    refine ⟨List.cons_ne_nil _ _, ?_⟩
    rw [← Bool.not_eq_true]
    intro hDigit
    have hMem : c ∈ (String.ofList (c :: rest)).toList := by
      rw [String.toList_ofList]
      exact List.mem_cons_self
    rw [not_isKeyword_of_mem hMem (not_isAlpha_of_isDigit hDigit)] at h
    cases h

/-- A guard keeps an identifier from being a reserved word, but only where it is put before it. -/
theorem isKeyword_identifier {guard : String} (hGuard : isKeyword guard = false) (value : String) :
    isKeyword (identifier value guard) = isKeyword (spelling value) := by
  unfold identifier spelling
  dsimp only
  generalize value.toList.filter isIdentifierChar = kept
  split
  · rename_i hPoor
    rw [Bool.or_eq_true, List.isEmpty_iff] at hPoor
    cases kept with
    | nil =>
      rw [String.ofList_nil, String.append_empty, hGuard]
      decide
    | cons c rest =>
      have hDigit : c.isDigit = true := hPoor.resolve_left (List.cons_ne_nil _ _)
      have hOther := not_isAlpha_of_isDigit hDigit
      have hMem : c ∈ (String.ofList (c :: rest)).toList := by
        rw [String.toList_ofList]
        exact List.mem_cons_self
      rw [not_isKeyword_of_mem hMem hOther, not_isKeyword_of_mem _ hOther]
      rw [String.toList_append]
      exact List.mem_append_right _ hMem
  · rfl

/-- Words that are written together are made of characters that an identifier may hold. -/
theorem identifierChars_pascal (value : String) : IdentifierChars (pascal value) := by
  have hUpper : ∀ c : Char, c.isAlphanum = true → c.toUpper.isAlphanum = true := by
    intro c hc
    cases hLower : c.isLower with
    | true => exact isAlphanum_iff.mpr (Or.inl (isAlpha_iff.mpr (Or.inl (isUpper_toUpper hLower))))
    | false => rwa [toUpper_eq_self hLower]
  have hAll : ∀ (cs : List Char) (inWord : Bool), ∀ c ∈ pascalFrom inWord cs, c.isAlphanum = true := by
    intro cs
    induction cs with
    | nil =>
      intro _ c hc
      exact absurd hc List.not_mem_nil
    | cons d rest ih =>
      intro inWord c hc
      rw [pascalFrom] at hc
      split at hc
      · rename_i hd
        rcases List.mem_cons.mp hc with rfl | hc
        · split
          · exact hd
          · exact hUpper d hd
        · exact ih true c hc
      · exact ih false c hc
  intro c hc
  rw [toList_pascal] at hc
  rw [isIdentifierChar, hAll _ _ c hc]
  rfl

/-- The reserved words that start with a capital. -/
def capitalKeywords : List String := ["False", "None", "True"]

theorem Capital.mem_of_isKeyword {word : String} (h : Capital word) (hWord : isKeyword word = true) :
    word ∈ capitalKeywords := by
  have hAll : ∀ word ∈ keywords, Capital word → word ∈ capitalKeywords := by decide +kernel
  exact hAll word (List.contains_iff_mem.mp hWord) h

theorem isIdentifier_resourceClass (collection : String) : IsIdentifier (resourceClass collection) :=
  isIdentifier_identifier (by decide) _

theorem isIdentifier_dtoClass (schemaName : String) : IsIdentifier (dtoClass schemaName) :=
  isIdentifier_identifier (by decide) _

/-- A request class is a name of the language, whatever the method is called. -/
theorem isName_requestClass (name : String) : IsName (requestClass name) := by
  have hWords : IsIdentifier (className name "Request") := isIdentifier_identifier (by decide) _
  constructor
  · unfold requestClass
    dsimp only
    split
    · exact hWords
    · exact hWords.append (by decide)
  · -- reserved words with a capital do not end like requests
    rw [← Bool.not_eq_true]
    intro hReserved
    have hEnds : ∀ word ∈ capitalKeywords, word.toList.getLast? ≠ some 't' := by decide
    exact hEnds _ ((capital_requestClass name).mem_of_isKeyword hReserved) (requestClass_getLast? name)

-- ---------------------------------------------------------------------------
-- Arguments
-- ---------------------------------------------------------------------------

theorem startsWithDigit_guardedWord (word : List Char) : startsWithDigit (guardedWord word) = false := by
  unfold guardedWord
  split
  · rfl
  · rename_i hStart
    exact Bool.not_eq_true _ ▸ hStart

/-- A word that is guarded is an identifier, -/
theorem isIdentifier_guardedWord {word : List Char} (h : IsSnakeWord word) :
    IsIdentifier (.ofList (guardedWord word)) where
  nonempty := by simpa using guardedWord_ne_nil h
  chars := isIdentifierChar_of_snake fun c hc => guardedWord_chars h c (by simpa using hc)
  start := by
    rw [String.toList_ofList]
    exact startsWithDigit_guardedWord word

/-- and once it is dressed it is no word that is in use. -/
theorem isNameBeside_dressed {word : List Char} (h : IsSnakeWord word) :
    IsNameBeside reservedArguments (dressed word) := by
  have hGuarded := isIdentifier_guardedWord h
  unfold dressed isReserved
  split
  · exact hGuarded.beside_append lettered_reservedArguments (c := '_') (by decide) (by decide) (by decide)
  · rename_i hFree
    rw [Bool.or_eq_true, not_or] at hFree
    exact ⟨⟨hGuarded, Bool.not_eq_true _ ▸ hFree.1⟩,
      fun hMem => hFree.2 (List.contains_iff_mem.mpr hMem)⟩

/-- The argument of a parameter is a name of the language that the method does not bind itself, whatever
the parameter is called. -/
theorem isNameBeside_argumentName (name : String) : IsNameBeside reservedArguments (argumentName name) := by
  obtain ⟨word, hWord, hName⟩ := exists_snakeWord name
  rw [hName]
  exact isNameBeside_dressed hWord

/-- So it is where other arguments have taken its name. -/
theorem isNameBeside_freshArgument (used : List String) (slot : Slot) (name : String) :
    IsNameBeside reservedArguments (freshArgument used slot name) := by
  have hSlot : IdentifierChars ("_" ++ slot.name) := by cases slot <;> decide
  have hMark : '_' ∈ ("_" ++ slot.name).toList := by cases slot <;> decide
  have hWords := lettered_reservedArguments
  exact freshArgument_induction (isNameBeside_argumentName name)
    (fun _ h => h.beside_append hWords (by decide) (c := '_') (by decide) (by decide))
    (fun _ h => h.beside_append hWords hSlot hMark (by decide))
    (fun _ n h => h.beside_number hWords n) used

theorem isName_freshArgument (used : List String) (slot : Slot) (name : String) :
    IsName (freshArgument used slot name) :=
  (isNameBeside_freshArgument used slot name).toIsName

/-- A word that may stand as it is needs no dress. -/
theorem dressed_eq_self {name : String} (h : IsNameBeside reservedArguments name) :
    dressed name.toList = name := by
  have hGuarded : String.ofList (guardedWord name.toList) = name := by
    rw [guardedWord, h.start, if_neg Bool.false_ne_true, String.ofList_toList]
  have hFree : isReserved name = false := by
    rw [isReserved, h.unreserved, Bool.false_or]
    exact Bool.eq_false_iff.mpr fun hMem => h.other (List.contains_iff_mem.mp hMem)
  rw [dressed, hGuarded, hFree, if_neg Bool.false_ne_true]

/--
**Arguments name themselves.** Whatever a parameter is called, its argument is made of small letters,
digits and underscores, at least one of them, does not start with a digit, is not reserved by the language
and not bound by the method itself; and its own argument is the same. A word in snake case that is like
this already names its argument.
-/
theorem argumentName_legal (name : String) :
    IsNameBeside reservedArguments (argumentName name) ∧ IsSnake (argumentName name) ∧
      argumentName (argumentName name) = argumentName name ∧
      (IsSnakeWord name.toList → IsNameBeside reservedArguments name → argumentName name = name) := by
  refine ⟨isNameBeside_argumentName name, argumentName_snake name, ?_, fun hWord hName => ?_⟩
  · obtain ⟨word, hWord, hName⟩ := exists_snakeWord name
    rw [hName, argumentName_dressed hWord]
  · have hSelf := argumentName_dressed hWord
    rwa [dressed_eq_self hName] at hSelf

/-- A name that stays, and names that do not: one whose capitals and signs are rewritten, one that starts
with a digit, a reserved one, one with underscores around it, and one without letters and digits. -/
theorem argumentName_awkwardNames :
    argumentName "x_request_id" = "x_request_id" ∧ argumentName "X-Request--ID" = "x_request_id" ∧
      argumentName "2ndTry" = "_2nd_try" ∧ argumentName "from" = "from_" ∧
      argumentName "__self__" = "self_" ∧ argumentName "Größe İ" = "gr_e_i" ∧
      argumentName "$$" = "value" ∧ argumentName (argumentName "2ndTry") = argumentName "2ndTry" := by
  have hWord : IsSnakeWord "x_request_id".toList := by
    rw [show "x_request_id".toList = ['x', '_', 'r', 'e', 'q', 'u', 'e', 's', 't', '_', 'i', 'd'] from rfl]
    decide
  have hName : IsNameBeside reservedArguments "x_request_id" := ⟨by decide, by decide⟩
  exact ⟨(argumentName_legal "x_request_id").2.2.2 hWord hName, by decide +kernel, by decide +kernel,
    by decide +kernel, by decide +kernel, by decide +kernel, by decide +kernel,
    (argumentName_legal "2ndTry").2.2.1⟩

end ClientGen.Naming
