import ClientGen.Text.Run

/-!
# Texts between separators

A text is cut at each of its separators, and joining the pieces with separators gives the
text back. Where the cuts are is determined: a front without separators ends at the first
one of the text.

Main results: `append_cons_inj`, `intercalate_splitOn`, `splitOn_cases`.
-/

namespace ClientGen.Text

/-- A separator that neither front contains separates uniquely. -/
theorem append_cons_inj {α : Type} {a : α} {xs ys xs' ys' : List α} (hxs : a ∉ xs)
    (hys : a ∉ ys) (h : xs ++ a :: xs' = ys ++ a :: ys') : xs = ys ∧ xs' = ys' := by
  induction xs generalizing ys with
  | nil =>
    cases ys with
    | nil => exact ⟨rfl, (List.cons.inj h).2⟩
    | cons y ys =>
      have hHead : a = y := (List.cons.inj h).1
      exact absurd (hHead ▸ List.mem_cons_self) hys
  | cons x xs ih =>
    cases ys with
    | nil =>
      have hHead : x = a := (List.cons.inj h).1
      exact absurd (hHead ▸ List.mem_cons_self) hxs
    | cons y ys =>
      obtain ⟨hHead, hTail⟩ := List.cons.inj h
      have hRest := ih (fun hMem => hxs (List.mem_cons_of_mem _ hMem))
        (fun hMem => hys (List.mem_cons_of_mem _ hMem)) hTail
      exact ⟨by rw [hHead, hRest.1], hRest.2⟩

variable {sep : Char}

theorem splitOn_eq (sep : Char) (cs : List Char) : splitOn sep cs = cs.splitOn sep := by
  induction cs with
  | nil => rfl
  | cons c rest ih =>
    rw [splitOn, ih, List.splitOn_cons_eq_if_modifyHead]
    cases hPieces : rest.splitOn sep with
    | nil => exact absurd hPieces (List.splitOn_ne_nil sep rest)
    | cons piece pieces => rfl

/-- The pieces are all of the text. -/
theorem intercalate_splitOn (sep : Char) (cs : List Char) :
    [sep].intercalate (splitOn sep cs) = cs := by
  rw [splitOn_eq]
  exact List.intercalate_splitOn sep

theorem splitOn_ne_nil (sep : Char) (cs : List Char) : splitOn sep cs ≠ [] := by
  rw [splitOn_eq]
  exact List.splitOn_ne_nil _ _

theorem splitOn_of_not_mem {cs : List Char} (h : sep ∉ cs) : splitOn sep cs = [cs] := by
  rw [splitOn_eq, List.splitOn_eq_singleton h]

theorem splitOn_append_cons (cs rest : List Char) :
    splitOn sep (cs ++ sep :: rest) = splitOn sep cs ++ splitOn sep rest := by
  rw [splitOn_eq, List.splitOn_append_cons_self, ← splitOn_eq, ← splitOn_eq]

theorem splitOn_append_of_not_mem {first : List Char} (h : sep ∉ first) (rest : List Char) :
    splitOn sep (first ++ sep :: rest) = first :: splitOn sep rest := by
  rw [splitOn_append_cons, splitOn_of_not_mem h, List.singleton_append]

/-- A text is one piece, or there is one before its first separator and the others are those after it. -/
theorem splitOn_cases (sep : Char) (cs : List Char) :
    (sep ∉ cs ∧ splitOn sep cs = [cs]) ∨
      ∃ first rest, cs = first ++ sep :: rest ∧ sep ∉ first ∧
        splitOn sep cs = first :: splitOn sep rest := by
  by_cases hMem : sep ∈ cs
  · obtain ⟨first, rest, rfl, hFirst⟩ := List.eq_append_cons_of_mem hMem
    exact Or.inr ⟨first, rest, rfl, hFirst, splitOn_append_of_not_mem hFirst rest⟩
  · exact Or.inl ⟨hMem, splitOn_of_not_mem hMem⟩

theorem not_mem_of_mem_splitOn {cs piece : List Char} (h : piece ∈ splitOn sep cs) :
    sep ∉ piece := by
  induction cs generalizing piece with
  | nil =>
    rw [List.mem_singleton.mp h]
    exact List.not_mem_nil
  | cons c rest ih =>
    rw [splitOn] at h
    split at h
    · rcases List.mem_cons.mp h with rfl | h
      · exact List.not_mem_nil
      · exact ih h
    · rename_i hOther
      have hHead : sep ≠ c := fun hSame => hOther (beq_iff_eq.mpr hSame.symm)
      split at h
      · rw [List.mem_singleton.mp h, List.mem_singleton]
        exact hHead
      · rename_i hPieces
        rcases List.mem_cons.mp h with rfl | h
        · rw [List.mem_cons, not_or]
          exact ⟨hHead, ih (hPieces ▸ List.mem_cons_self)⟩
        · exact ih (hPieces ▸ List.mem_cons_of_mem _ h)

end ClientGen.Text
