import ClientGen.Naming.Operation
import ClientGen.Proofs.Text.Separators
import Mathlib.Data.List.TakeWhile

/-!
# Literal segments of a path

A prefix is taken off a path as a text, before the path is cut into segments. The same comes
out where the path is cut first: then the prefix is a segment, or two of them, and these are
dropped if there are others behind them (`dropFirst`). So whatever is read off the literal
segments of a path is a property of its segments.

Main results:

* `splitOn_dropLead`, `splitOn_dropVersion` — what is dropped from the text, and from the
  segments.
* `literalSegments_eq` — the literal segments, from the segments.
-/

namespace ClientGen.Naming

open ClientGen.Text

-- ---------------------------------------------------------------------------
-- Leads
-- ---------------------------------------------------------------------------

/-- Drop the first segment if it is of the class, unless it is the only one. -/
def dropFirst (q : List Char → Bool) : List (List Char) → List (List Char)
  | first :: next :: rest => if q first then next :: rest else first :: next :: rest
  | segments => segments

section DropFirst

variable {q : List Char → Bool} {first : List Char} {rest : List (List Char)}

theorem dropFirst_of_pos (h : q first = true) (hMore : rest ≠ []) : dropFirst q (first :: rest) = rest := by
  cases rest with
  | nil => exact absurd rfl hMore
  | cons _ _ => rw [dropFirst, if_pos h]

theorem dropFirst_of_neg (h : q first = false) : dropFirst q (first :: rest) = first :: rest := by
  cases rest with
  | nil => rfl
  | cons _ _ => rw [dropFirst, if_neg (by simp [h])]

end DropFirst

/-- To drop a segment with its slash from the text is to drop it from the segments. -/
theorem splitOn_dropLead {lead : List Char} (hLead : '/' ∉ lead) (cs : List Char) :
    splitOn '/' (dropLead (lead ++ ['/']) cs) = dropFirst (· == lead) (splitOn '/' cs) := by
  unfold dropLead
  rcases splitOn_cases '/' cs with ⟨hPlain, hOne⟩ | ⟨first, rest, rfl, hFirst, hMore⟩
  · have hOther : ¬ (lead ++ ['/']).isPrefixOf cs = true := fun hPrefix =>
      hPlain ((List.isPrefixOf_iff_prefix.mp hPrefix).subset (by simp))
    rw [if_neg hOther, hOne]
    rfl
  · by_cases hSame : first = lead
    · subst hSame
      have hPrefix : (first ++ ['/']).isPrefixOf (first ++ '/' :: rest) = true :=
        List.isPrefixOf_iff_prefix.mpr ⟨rest, by simp⟩
      rw [if_pos hPrefix, hMore, dropFirst_of_pos (by simp) (splitOn_ne_nil _ _)]
      simp
    · have hOther : ¬ (lead ++ ['/']).isPrefixOf (first ++ '/' :: rest) = true := by
        intro hPrefix
        obtain ⟨after, hAll⟩ := List.isPrefixOf_iff_prefix.mp hPrefix
        rw [List.append_assoc, List.singleton_append] at hAll
        exact hSame (append_cons_inj hLead hFirst hAll).1.symm
      rw [if_neg hOther, hMore, dropFirst_of_neg (by simpa using hSame)]

-- ---------------------------------------------------------------------------
-- Versions
-- ---------------------------------------------------------------------------

/-- Is the segment a version: the letter `v` and decimal digits? -/
def isVersion : List Char → Bool
  | 'v' :: digits => !digits.isEmpty && digits.all isDecimal
  | _ => false

theorem isVersion_iff {segment : List Char} : isVersion segment = true ↔
    ∃ digits, segment = 'v' :: digits ∧ digits ≠ [] ∧ ∀ c ∈ digits, isDecimal c = true := by
  unfold isVersion
  split
  · simp
  · rename_i hOther
    refine iff_of_false Bool.false_ne_true ?_
    rintro ⟨digits, rfl, -⟩
    exact hOther digits rfl

theorem slash_not_mem_of_isVersion {segment : List Char} (h : isVersion segment = true) :
    '/' ∉ segment := by
  obtain ⟨digits, rfl, -, hDigits⟩ := isVersion_iff.mp h
  intro hMem
  rcases List.mem_cons.mp hMem with hLetter | hMem
  · cases hLetter
  · exact absurd (hDigits _ hMem) (by decide)

theorem dropVersion_of_version {first : List Char} (h : isVersion first = true) (rest : List Char) :
    dropVersion (first ++ '/' :: rest) = rest := by
  obtain ⟨digits, rfl, hSome, hDigits⟩ := isVersion_iff.mp h
  have hSlash : ¬ isDecimal '/' = true := by decide
  have hTaken : (digits ++ '/' :: rest).takeWhile isDecimal = digits := by
    rw [List.takeWhile_append_of_pos hDigits, List.takeWhile_cons_of_neg hSlash, List.append_nil]
  have hLeft : (digits ++ '/' :: rest).dropWhile isDecimal = '/' :: rest := by
    rw [List.dropWhile_append_of_pos hDigits, List.dropWhile_cons_of_neg hSlash]
  cases digits with
  | nil => exact absurd rfl hSome
  | cons d digits =>
    rw [List.cons_append, dropVersion, hTaken, hLeft]
    rfl

/-- What is dropped is a version, if anything is. -/
theorem dropVersion_cases (cs : List Char) :
    (∃ first, isVersion first = true ∧ cs = first ++ '/' :: dropVersion cs) ∨ dropVersion cs = cs := by
  unfold dropVersion
  split
  · rename_i rest
    split
    · rename_i d digits after hTaken hLeft
      refine Or.inl ⟨'v' :: rest.takeWhile isDecimal, ?_, ?_⟩
      · refine isVersion_iff.mpr ⟨_, rfl, by simp [hTaken], fun c hc => ?_⟩
        exact List.mem_takeWhile_imp hc
      · rw [List.cons_append, ← hLeft, List.takeWhile_append_dropWhile]
    · exact Or.inr rfl
  · exact Or.inr rfl

theorem splitOn_dropVersion (cs : List Char) :
    splitOn '/' (dropVersion cs) = dropFirst isVersion (splitOn '/' cs) := by
  rcases splitOn_cases '/' cs with ⟨hPlain, hOne⟩ | ⟨first, rest, rfl, hFirst, hMore⟩
  · rcases dropVersion_cases cs with ⟨front, -, hAll⟩ | hSelf
    · exact absurd (hAll ▸ List.mem_append_right _ List.mem_cons_self) hPlain
    · rw [hSelf, hOne]
      rfl
  · cases hVersion : isVersion first with
    | true => rw [dropVersion_of_version hVersion, hMore, dropFirst_of_pos hVersion (splitOn_ne_nil _ _)]
    | false =>
      rcases dropVersion_cases (first ++ '/' :: rest) with ⟨front, hFront, hAll⟩ | hSelf
      · obtain ⟨rfl, -⟩ := append_cons_inj hFirst (slash_not_mem_of_isVersion hFront) hAll
        rw [hVersion] at hFront
        cases hFront
      · rw [hSelf, hMore, dropFirst_of_neg hVersion]

-- ---------------------------------------------------------------------------
-- Literal segments
-- ---------------------------------------------------------------------------

/-- The segments that a name is looked for in. -/
def bareSegments (segments : List (List Char)) : List (List Char) :=
  dropFirst isVersion (dropFirst (· == "api".toList) (dropFirst (· == []) segments))

/-- Segments that have a word for a name, if any. -/
def isLiteral (segment : List Char) : Bool := !segment.isEmpty && !isPlaceholderSegment segment

/-- **Segments.** A prefix of a path is dropped from its segments. -/
theorem literalSegments_eq (path : String) : literalSegments path =
    ((bareSegments (splitOn '/' path.toList)).filter isLiteral).map String.ofList := by
  have hSlash : splitOn '/' (dropLead ['/'] path.toList) =
      dropFirst (· == []) (splitOn '/' path.toList) :=
    splitOn_dropLead List.not_mem_nil _
  have hNoSlash : '/' ∉ "api".toList := by decide
  have hApi : ∀ cs, splitOn '/' (dropLead "api/".toList cs) =
      dropFirst (· == "api".toList) (splitOn '/' cs) :=
    splitOn_dropLead hNoSlash
  unfold literalSegments bareSegments
  dsimp only
  rw [splitOn_dropVersion, hApi, hSlash]
  rfl

end ClientGen.Naming
