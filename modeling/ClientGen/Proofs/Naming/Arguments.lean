import ClientGen.Proofs.Naming.Pascal
import ClientGen.Proofs.Naming.Resolution
import ClientGen.Proofs.Naming.SnakeWords

/-!
# Characters of argument names

Whatever a parameter is called, its argument is written in small letters, digits and
underscores. So the expression that reads an argument inside a formatted string ends
where its field does.

Main results:

* `argumentName_snake` / `freshArgument_snake` — the forms of a name.
* `resolve_values` — what every fresh name has, all argument names of a run have.
* `resolve_arguments_snake` — they are all in snake case.
-/

namespace ClientGen.Naming

open ClientGen.Api ClientGen.Document ClientGen.Text

/-- The text consists of small letters, digits and underscores. -/
def IsSnake (text : String) : Prop := ∀ c ∈ text.toList, isSnakeChar c = true

instance (text : String) : Decidable (IsSnake text) := decidable_of_iff _ List.all_eq_true

theorem IsSnake.append {s t : String} (hs : IsSnake s) (ht : IsSnake t) : IsSnake (s ++ t) := by
  intro c hc
  rw [String.toList_append, List.mem_append] at hc
  exact hc.elim (hs c) (ht c)

/-- A name that gives way to another one stays in snake case. -/
theorem IsSnake.ite {s t : String} (hs : IsSnake s) (ht : IsSnake t) (c : Prop) [Decidable c] :
    IsSnake (if c then s else t) := by
  by_cases hc : c
  · rwa [if_pos hc]
  · rwa [if_neg hc]

theorem isSnake_toString (n : Nat) : IsSnake (toString n) := by
  intro c hc
  simp [isSnakeChar, isDigit_of_mem_toString hc]

theorem isIdentifierChar_of_snake {text : String} (h : IsSnake text) :
    ∀ c ∈ text.toList, isIdentifierChar c = true := by
  intro c hc
  have hSnake := h c hc
  simp only [isSnakeChar, Bool.or_eq_true] at hSnake
  simp only [isIdentifierChar, Char.isAlphanum, Bool.or_eq_true]
  rcases hSnake with (hLower | hDigit) | hUnderscore
  · have hLetter : c.isAlpha = true := Bool.or_eq_true_iff.mpr (Or.inr hLower)
    exact Or.inl (Or.inl hLetter)
  · exact Or.inl (Or.inr hDigit)
  · exact Or.inr hUnderscore

-- ---------------------------------------------------------------------------
-- One name
-- ---------------------------------------------------------------------------

/-- The argument of a parameter is in snake case, whatever the parameter is called. -/
theorem argumentName_snake (name : String) : IsSnake (argumentName name) := by
  obtain ⟨word, hWord, hName⟩ := exists_snakeWord name
  have hGuarded : IsSnake (.ofList (guardedWord word)) := by
    intro c hc
    rw [String.toList_ofList] at hc
    exact guardedWord_chars hWord c hc
  rw [hName]
  exact (hGuarded.append (by decide)).ite hGuarded _

-- ---------------------------------------------------------------------------
-- Names that give way to each other
-- ---------------------------------------------------------------------------

/-- The name that a parameter has where it is the only one: it gives way to the members of a request. -/
def ownArgument (name : String) : String :=
  if requestMembers.contains (argumentName name) then argumentName name ++ "_" else argumentName name

/-- The name that a parameter takes unless it is in use: where its own name is, the slot comes after it. -/
def wantedArgument (used : List String) (slot : Slot) (name : String) : String :=
  if used.contains (ownArgument name) then ownArgument name ++ "_" ++ slot.name else ownArgument name

/-- The search for a name ends: a parameter takes the first free one of the name that it wants and this
name with a number. -/
theorem freshArgument_isFirstFree (used : List String) (slot : Slot) (name : String) :
    ∃ n, IsFirstFree used.contains (numbered (wantedArgument used slot name) "") 1 n ∧
      freshArgument used slot name = numbered (wantedArgument used slot name) "" n :=
  fresh_isFirstFree fun _ _ hi hj h => numbered_inj hi hj h

/-- A parameter takes the name that it wants, or this name with a number where it is in use. -/
theorem freshArgument_cases (used : List String) (slot : Slot) (name : String) :
    (wantedArgument used slot name ∉ used ∧
        freshArgument used slot name = wantedArgument used slot name) ∨
      wantedArgument used slot name ∈ used ∧
        ∃ n : Nat, freshArgument used slot name = wantedArgument used slot name ++ toString n := by
  obtain ⟨n, hn, hName⟩ := freshArgument_isFirstFree used slot name
  rw [hName]
  rcases Nat.lt_or_ge 1 n with hMore | hOne
  · have hTaken := hn.before 1 (Nat.le_refl _) hMore
    rw [numbered, if_pos (Nat.le_refl _)] at hTaken
    rw [numbered, if_neg (by omega), String.append_empty]
    exact Or.inr ⟨by simpa using hTaken, n, rfl⟩
  · have hFree := hn.free
    rw [numbered, if_pos hOne] at hFree ⊢
    exact Or.inl ⟨by simpa using hFree, rfl⟩

/-- What the plain name of a parameter has and each of the additions keeps, its argument has. -/
theorem freshArgument_induction {P : String → Prop} {slot : Slot} {name : String}
    (hPlain : P (argumentName name)) (hMark : ∀ s, P s → P (s ++ "_"))
    (hSlot : ∀ s, P s → P (s ++ ("_" ++ slot.name))) (hNumber : ∀ s (n : Nat), P s → P (s ++ toString n))
    (used : List String) : P (freshArgument used slot name) := by
  have hOwn : P (ownArgument name) := by
    unfold ownArgument
    split
    · exact hMark _ hPlain
    · exact hPlain
  have hWanted : P (wantedArgument used slot name) := by
    unfold wantedArgument
    split
    · rw [String.append_assoc]
      exact hSlot _ hOwn
    · exact hOwn
  rcases freshArgument_cases used slot name with ⟨-, hName⟩ | ⟨-, n, hName⟩
  · rw [hName]
    exact hWanted
  · rw [hName]
    exact hNumber _ n hWanted

/-- So the argument is in snake case where other arguments have taken its name. -/
theorem freshArgument_snake (used : List String) (slot : Slot) (name : String) :
    IsSnake (freshArgument used slot name) := by
  have hSlot : IsSnake ("_" ++ slot.name) := by cases slot <;> decide
  exact freshArgument_induction (argumentName_snake name) (fun _ h => h.append (by decide))
    (fun _ h => h.append hSlot) (fun _ n h => h.append (isSnake_toString n)) used

-- ---------------------------------------------------------------------------
-- All names
-- ---------------------------------------------------------------------------

section Fresh

variable {P : String → Prop} (hFresh : ∀ used slot name, P (freshArgument used slot name))
include hFresh

theorem addArgument_values {settings : Settings} {slot : Slot} {state state' : Arguments × List String}
    {p : Parameter} (hState : ∀ argument ∈ state.1.values, P argument)
    (h : addArgument settings slot state p = .ok state') : ∀ argument ∈ state'.1.values, P argument := by
  unfold addArgument at h
  split at h
  · cases h
    exact hState
  · obtain ⟨name, -, h⟩ := exists_of_bind_ok h
    cases h
    intro argument hMem
    rcases Dictionary.mem_values_put hMem with hOld | rfl
    · exact hState argument hOld
    · exact hFresh _ _ _

/-- What every fresh name has, the arguments of an endpoint have. -/
theorem argumentsOf_values {settings : Settings} {e : Endpoint} {arguments : Arguments}
    (h : argumentsOf settings e = .ok arguments) : ∀ argument ∈ arguments.values, P argument := by
  obtain ⟨state, hRun, h⟩ := exists_of_bind_ok h
  cases h
  refine foldlM_ok_induction (fun state : Arguments × List String =>
    ∀ argument ∈ state.1.values, P argument) ?_ ?_ hRun
  · exact fun _ hMem => absurd hMem List.not_mem_nil
  · intro state slotted state' _ hState hStep
    exact addArgument_values hFresh hState hStep

/-- So have those of all endpoints whose names are resolved together. -/
theorem resolve_values {settings : Settings} {endpoints : List Endpoint} {r : Resolution}
    (h : (resolve settings endpoints).outcome = .ok r) :
    ∀ resolved ∈ r.names.values, ∀ argument ∈ resolved.arguments.values, P argument := by
  intro resolved hMem
  obtain ⟨_, -, _, _, hArguments, rfl⟩ := exists_nameWith_of_mem h resolved hMem
  exact argumentsOf_values hFresh hArguments

end Fresh

/-- The arguments are in snake case. -/
def AllSnake (arguments : Arguments) : Prop := ∀ argument ∈ arguments.values, IsSnake argument

theorem argumentsOf_snake {settings : Settings} {e : Endpoint} {arguments : Arguments}
    (h : argumentsOf settings e = .ok arguments) : AllSnake arguments :=
  argumentsOf_values freshArgument_snake h

/-- Resolution gives snake case names to the arguments of all endpoints. -/
theorem resolve_arguments_snake {settings : Settings} {endpoints : List Endpoint} {r : Resolution}
    (h : (resolve settings endpoints).outcome = .ok r) :
    ∀ resolved ∈ r.names.values, AllSnake resolved.arguments :=
  resolve_values freshArgument_snake h

end ClientGen.Naming
