import ClientGen.Proofs.Path.Template
import Mathlib.Data.List.Forall2

/-!
# Paths with values for their placeholders

A request puts values where the path of its endpoint has placeholders. This module states
what comes out of a segment by a single scan from left to right (`Filled`), with no
regard to how the segment is cut into pieces, and shows that filling the pieces one by
one gives just this.

Main result:

* `filled_of_pieces` — the filled pieces of a segment make up the filled segment.
-/

namespace ClientGen.Path

/-- The characters of a segment, and these with a value for each placeholder. -/
inductive Filled (gives : String → String → Prop) : List Char → List Char → Prop
  | nil : Filled gives [] []
  /-- a placeholder goes up to the next closing brace -/
  | placeholder {name rest text : List Char} {value : String} :
      closeBrace ∉ name → gives (.ofList name) value → Filled gives rest text →
        Filled gives (openBrace :: name ++ closeBrace :: rest) (value.toList ++ text)
  /-- everything else stays, also an opening brace that no other one closes -/
  | char {c : Char} {rest text : List Char} :
      (c = openBrace → closeBrace ∉ rest) → Filled gives rest text →
        Filled gives (c :: rest) (c :: text)

variable {gives : String → String → Prop}

-- ---------------------------------------------------------------------------
-- Piece by piece
-- ---------------------------------------------------------------------------

/-- A piece with the value of its placeholder. -/
def Piece.Fills (gives : String → String → Prop) : Piece → List Char → Prop
  | .text cs, out => out = cs
  | .placeholder name, out => ∃ value, gives (.ofList name) value ∧ out = value.toList

/-- What both readers leave to be filled; after a name, its closing brace comes first. -/
theorem filled_from (cs : List Char) :
    (∀ outs, List.Forall₂ (Piece.Fills gives) (textFrom cs).2 outs →
      Filled gives cs ((textFrom cs).1 ++ outs.flatten)) ∧
    (closeBrace ∈ cs → ∀ outs, List.Forall₂ (Piece.Fills gives) (nameFrom cs).2 outs →
      ∃ rest, cs = (nameFrom cs).1 ++ closeBrace :: rest ∧ Filled gives rest outs.flatten) := by
  induction cs with
  | nil =>
    refine ⟨fun outs h => ?_, fun hMem => absurd hMem List.not_mem_nil⟩
    cases h
    exact .nil
  | cons c rest ih =>
    obtain ⟨hText, hName⟩ := ih
    constructor
    · intro outs h
      rw [textFrom] at h ⊢
      split at h
      · rename_i hOpens
        rw [if_pos hOpens]
        rw [Bool.and_eq_true, beq_iff_eq, List.contains_iff_mem] at hOpens
        obtain ⟨rfl, hCloses⟩ := hOpens
        cases h with
        | cons hValue hMore =>
          obtain ⟨value, hValue, rfl⟩ := hValue
          obtain ⟨after, hRest, hFilled⟩ := hName hCloses _ hMore
          have hPlaceholder := Filled.placeholder ((proper_from rest).2.1) hValue hFilled
          rwa [List.cons_append, ← hRest] at hPlaceholder
      · rename_i hStays
        rw [if_neg hStays]
        rw [Bool.and_eq_true, beq_iff_eq, List.contains_iff_mem, not_and] at hStays
        exact (hText outs h).char hStays
    · intro hMem outs h
      rw [nameFrom] at h ⊢
      split at h
      · rename_i hCloses
        rw [if_pos hCloses]
        cases h with
        | cons hFront hMore =>
          cases hFront
          exact ⟨rest, by rw [beq_iff_eq.mp hCloses]; rfl, hText _ hMore⟩
      · rename_i hOther
        rw [if_neg hOther]
        have hRest : closeBrace ∈ rest := by
          rcases List.mem_cons.mp hMem with hSame | hMem
          · exact absurd (beq_iff_eq.mpr hSame.symm) hOther
          · exact hMem
        obtain ⟨after, hAfter, hFilled⟩ := hName hRest outs h
        exact ⟨after, congrArg (c :: ·) hAfter, hFilled⟩

/-- **Pieces.** A segment is filled by filling its pieces. -/
theorem filled_of_pieces {cs : List Char} {outs : List (List Char)}
    (h : List.Forall₂ (Piece.Fills gives) (pieces cs) outs) : Filled gives cs outs.flatten := by
  cases h with
  | cons hFirst hMore =>
    cases hFirst
    exact (filled_from cs).1 _ hMore

end ClientGen.Path
