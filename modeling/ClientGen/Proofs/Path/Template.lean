import ClientGen.Path.Template
import ClientGen.Proofs.Text.Separators

/-!
# Paths up to the names of their placeholders

Two paths address different resources if they differ in more than how their
placeholders are called. This module blanks the placeholders of a path, and shows
that cutting a path into segments and the segments into pieces loses nothing of what
is left: a placeholder is blanked alike whether its segment is looked at alone or
within the path.

Main results:

* `pieces_source` — the pieces of a segment are all of the segment.
* `blankAlike_segments` — blanking the pieces of the segments first makes no
  difference to the blanked path.
-/

namespace ClientGen.Path

open ClientGen.Text

-- ---------------------------------------------------------------------------
-- Blanked paths
-- ---------------------------------------------------------------------------

/-- The characters of a path without the names of its placeholders, each of which goes up to the
next closing brace. The first argument says whether a placeholder is open. -/
def blankFrom : Bool → List Char → List Char
  | _, [] => []
  | true, c :: rest => if c == closeBrace then c :: blankFrom false rest else blankFrom true rest
  | false, c :: rest => c :: blankFrom (c == openBrace) rest

/-- The path with `{}` for every placeholder. -/
def blankPlaceholders (path : String) : String := .ofList (blankFrom false path.toList)

/-- The path without the slashes at its ends. -/
def stripSlashes (path : String) : String := .ofList (trim (· == '/') path.toList)

/-- The texts are blanked alike, be a placeholder open before them or not. -/
def BlankAlike (cs ds : List Char) : Prop := ∀ isOpen, blankFrom isOpen cs = blankFrom isOpen ds

theorem BlankAlike.refl (cs : List Char) : BlankAlike cs cs := fun _ => rfl

theorem BlankAlike.cons {cs ds : List Char} (h : BlankAlike cs ds) (c : Char) :
    BlankAlike (c :: cs) (c :: ds) := by
  intro isOpen
  cases isOpen with
  | false => rw [blankFrom, blankFrom, h]
  | true => rw [blankFrom, blankFrom, h, h]

theorem BlankAlike.append {cs ds : List Char} (h : BlankAlike cs ds) (front : List Char) :
    BlankAlike (front ++ cs) (front ++ ds) := by
  induction front with
  | nil => exact h
  | cons c _ ih => exact ih.cons c

/-- Nothing is left of an open name. -/
theorem blankFrom_name {name rest : List Char} (hName : closeBrace ∉ name) :
    blankFrom true (name ++ closeBrace :: rest) = closeBrace :: blankFrom false rest := by
  induction name with
  | nil => rfl
  | cons c name ih =>
    have hOther : (c == closeBrace) = false := by
      rw [beq_eq_false_iff_ne]
      rintro rfl
      exact hName List.mem_cons_self
    rw [List.cons_append, blankFrom, hOther]
    exact ih fun hMem => hName (List.mem_cons_of_mem _ hMem)

/-- A placeholder is blanked whatever its name is, also where another one is open already. -/
theorem BlankAlike.placeholder {cs ds name : List Char} (h : BlankAlike cs ds)
    (hName : closeBrace ∉ name) :
    BlankAlike (openBrace :: name ++ closeBrace :: cs) (openBrace :: closeBrace :: ds) := by
  have hBoth : blankFrom true (name ++ closeBrace :: cs) = blankFrom true (closeBrace :: ds) := by
    rw [blankFrom_name hName, h false]
    rfl
  intro isOpen
  cases isOpen with
  | false => exact congrArg (openBrace :: ·) hBoth
  | true => exact hBoth

-- ---------------------------------------------------------------------------
-- Pieces
-- ---------------------------------------------------------------------------

namespace Piece

/-- The piece as its segment has it. -/
def source : Piece → List Char
  | text cs => cs
  | placeholder name => openBrace :: name ++ [closeBrace]

/-- The piece with its name blanked. -/
def blank : Piece → List Char
  | text cs => cs
  | placeholder _ => [openBrace, closeBrace]

/-- The name of a placeholder ends before the first closing brace. -/
def Proper : Piece → Prop
  | text _ => True
  | placeholder name => closeBrace ∉ name

end Piece

/-- Both readers give back what they read; that of names its closing brace as well. -/
theorem source_from (cs : List Char) :
    (textFrom cs).1 ++ (textFrom cs).2.flatMap Piece.source = cs ∧
      (closeBrace ∈ cs →
        (nameFrom cs).1 ++ closeBrace :: (nameFrom cs).2.flatMap Piece.source = cs) := by
  induction cs with
  | nil => simp [textFrom]
  | cons c rest ih =>
    obtain ⟨hText, hName⟩ := ih
    constructor
    · rw [textFrom]
      split
      · rename_i hOpens
        rw [Bool.and_eq_true, beq_iff_eq, List.contains_iff_mem] at hOpens
        simp only [List.nil_append, List.flatMap_cons, Piece.source, List.append_assoc,
          List.cons_append]
        rw [hName hOpens.2, hOpens.1]
      · exact congrArg (c :: ·) hText
    · intro hMem
      rw [nameFrom]
      split
      · rename_i hCloses
        simp only [List.nil_append, List.flatMap_cons, Piece.source]
        rw [hText, beq_iff_eq.mp hCloses]
      · rename_i hOther
        have hRest : closeBrace ∈ rest := by
          rcases List.mem_cons.mp hMem with hSame | hMem
          · exact absurd (beq_iff_eq.mpr hSame.symm) hOther
          · exact hMem
        exact congrArg (c :: ·) (hName hRest)

/-- The pieces of a segment are all of it. -/
theorem pieces_source (cs : List Char) : (pieces cs).flatMap Piece.source = cs :=
  (source_from cs).1

theorem proper_from (cs : List Char) :
    (∀ p ∈ (textFrom cs).2, p.Proper) ∧ closeBrace ∉ (nameFrom cs).1 ∧
      ∀ p ∈ (nameFrom cs).2, p.Proper := by
  induction cs with
  | nil => simp [textFrom, nameFrom]
  | cons c rest ih =>
    obtain ⟨hText, hName, hAfter⟩ := ih
    refine ⟨?_, ?_, ?_⟩
    · rw [textFrom]
      split
      · exact List.forall_mem_cons.mpr ⟨hName, hAfter⟩
      · exact hText
    · rw [nameFrom]
      split
      · exact List.not_mem_nil
      · rename_i hOther
        rw [List.mem_cons, not_or]
        exact ⟨fun hSame => hOther (beq_iff_eq.mpr hSame.symm), hName⟩
    · rw [nameFrom]
      split
      · exact List.forall_mem_cons.mpr ⟨trivial, hText⟩
      · exact hAfter

theorem pieces_proper (cs : List Char) : ∀ p ∈ pieces cs, p.Proper :=
  List.forall_mem_cons.mpr ⟨trivial, (proper_from cs).1⟩

/-- Blanking pieces makes no difference to the blanked text that they are a part of. -/
theorem BlankAlike.pieces {cs ds : List Char} (h : BlankAlike cs ds) {ps : List Piece}
    (hProper : ∀ p ∈ ps, p.Proper) :
    BlankAlike (ps.flatMap Piece.source ++ cs) (ps.flatMap Piece.blank ++ ds) := by
  induction ps with
  | nil => exact h
  | cons p ps ih =>
    obtain ⟨hHead, hRest⟩ := List.forall_mem_cons.mp hProper
    rw [List.flatMap_cons, List.flatMap_cons, List.append_assoc, List.append_assoc]
    cases p with
    | text front => exact (ih hRest).append front
    | placeholder name =>
      have hSource : (Piece.placeholder name).source ++ (ps.flatMap Piece.source ++ cs) =
          openBrace :: name ++ closeBrace :: (ps.flatMap Piece.source ++ cs) := by
        simp [Piece.source]
      rw [hSource]
      exact (ih hRest).placeholder hHead

-- ---------------------------------------------------------------------------
-- Segments
-- ---------------------------------------------------------------------------

/-- The characters of a segment with its placeholders blanked. -/
def blankSegment (segment : List Char) : List Char := (pieces segment).flatMap Piece.blank

/-- Blanking segment by segment makes no difference to the blanked path, although a placeholder
may go beyond its segment. -/
theorem blankAlike_segments (segments : List (List Char)) :
    BlankAlike (['/'].intercalate segments) (['/'].intercalate (segments.map blankSegment)) := by
  have hSegment : ∀ segment cs ds, BlankAlike cs ds →
      BlankAlike (segment ++ cs) (blankSegment segment ++ ds) := by
    intro segment cs ds h
    have hPieces := h.pieces (pieces_proper segment)
    rwa [pieces_source] at hPieces
  induction segments with
  | nil => exact BlankAlike.refl _
  | cons segment rest ih =>
    cases rest with
    | nil => simpa using hSegment segment [] [] (BlankAlike.refl _)
    | cons next rest =>
      rw [List.map_cons] at ih ⊢
      rw [List.map_cons, List.intercalate_cons_cons, List.intercalate_cons_cons, List.append_assoc,
        List.append_assoc]
      exact hSegment segment _ _ (ih.cons '/')

end ClientGen.Path
