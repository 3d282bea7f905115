import ClientGen.Text.Run
import Mathlib.Data.List.Chain

/-!
# Texts without runs

Names are made of a text by writing one mark for each run of other characters and dropping
the marks at both ends. What comes out has no two marks in a row and none at its ends,
and a text that is like this already is left as it is: so a second pass changes nothing.

Main results:

* `parted_replaceRuns` / `replaceRuns_eq_self` — one mark for each run, and no further change.
* `trim_isInfix`, `trim_head?`, `trim_getLast?` / `trim_eq_self` — the same of the ends.
-/

namespace ClientGen.Text

variable {p : Char → Bool} {mark : Char}

-- ---------------------------------------------------------------------------
-- Runs
-- ---------------------------------------------------------------------------

/-- No two of the marks stand next to each other. -/
def Parted (mark : Char) (cs : List Char) : Prop := cs.IsChain fun a b => ¬ (a = mark ∧ b = mark)

instance (mark : Char) (cs : List Char) : Decidable (Parted mark cs) :=
  inferInstanceAs (Decidable (cs.IsChain fun a b => ¬ (a = mark ∧ b = mark)))

theorem Parted.of_isInfix {cs ds : List Char} (h : Parted mark cs) (hPart : ds <:+: cs) :
    Parted mark ds := by
  obtain ⟨before, after, rfl⟩ := hPart
  exact (List.IsChain.left_of_append h).right_of_append

/-- A mark may come before what does not start with one. -/
theorem Parted.cons {c : Char} {cs : List Char} (h : Parted mark cs) (hHead : ∀ d ∈ cs.head?, d ≠ mark) :
    Parted mark (c :: cs) :=
  List.IsChain.cons h fun d hd hBoth => hHead d hd hBoth.2

/-- Two texts may be joined where the first one does not end with a mark. -/
theorem Parted.append {cs ds : List Char} (hcs : Parted mark cs) (hds : Parted mark ds)
    (hLast : ∀ c ∈ cs.getLast?, c ≠ mark) : Parted mark (cs ++ ds) :=
  List.IsChain.append hcs hds fun c hc _ _ hBoth => hLast c hc hBoth.1

theorem parted_of_not_mem {cs : List Char} (h : mark ∉ cs) : Parted mark cs := by
  refine List.Pairwise.isChain (List.pairwise_of_forall_mem_list ?_)
  rintro _ hMem _ _ ⟨rfl, -⟩
  exact h hMem

/-- Replacing runs leaves the other characters and brings in the replacement only. -/
theorem mem_replaceRuns {cs : List Char} {c : Char} (h : c ∈ replaceRuns p mark cs) :
    c = mark ∨ c ∈ cs ∧ p c = false := by
  induction cs with
  | nil => exact absurd h List.not_mem_nil
  | cons a rest ih =>
    have hOne : ∀ d, d = (if p a then mark else a) → d = mark ∨ d ∈ a :: rest ∧ p d = false := by
      rintro d rfl
      by_cases ha : p a = true
      · exact Or.inl (if_pos ha)
      · rw [if_neg ha]
        exact Or.inr ⟨List.mem_cons_self, Bool.not_eq_true _ ▸ ha⟩
    have hRest : c ∈ replaceRuns p mark rest → c = mark ∨ c ∈ a :: rest ∧ p c = false := fun hMem =>
      (ih hMem).imp_right fun hKept => ⟨List.mem_cons_of_mem _ hKept.1, hKept.2⟩
    unfold replaceRuns at h
    split at h
    · split at h
      · exact hRest h
      · rcases List.mem_cons.mp h with hHead | hTail
        · exact hOne c hHead
        · exact hRest hTail
    · exact hOne c (List.mem_singleton.mp h)

/-- The first character decides what comes first. -/
theorem head?_replaceRuns (a : Char) (rest : List Char) :
    (replaceRuns p mark (a :: rest)).head? = some (if p a then mark else a) := by
  induction rest generalizing a with
  | nil => rfl
  | cons b rest ih =>
    rw [replaceRuns]
    split
    · rename_i hBoth
      obtain ⟨ha, hb⟩ := Bool.and_eq_true_iff.mp hBoth
      rw [ih, if_pos hb, if_pos ha]
    · rfl

/-- The last character decides what comes last. -/
theorem getLast?_replaceRuns (cs : List Char) :
    (replaceRuns p mark cs).getLast? = cs.getLast?.map fun a => if p a then mark else a := by
  induction cs with
  | nil => rfl
  | cons a rest ih =>
    cases rest with
    | nil => rfl
    | cons b rest =>
      have hSome : replaceRuns p mark (b :: rest) ≠ [] := by
        intro hNil
        have hHead : (replaceRuns p mark (b :: rest)).head? = _ := head?_replaceRuns b rest
        simp [hNil] at hHead
      rw [List.getLast?_cons_cons, ← ih, replaceRuns]
      split
      · rfl
      · rw [List.getLast?_cons_of_ne_nil hSome]

/-- There is one mark for each run, if the mark is of the class itself. -/
theorem parted_replaceRuns (hMark : p mark = true) (cs : List Char) :
    Parted mark (replaceRuns p mark cs) := by
  induction cs with
  | nil => exact List.isChain_nil
  | cons a rest ih =>
    cases rest with
    | nil => exact List.isChain_singleton _
    | cons b rest =>
      rw [replaceRuns]
      split
      · exact ih
      · rename_i hNotBoth
        refine List.IsChain.cons ih ?_
        intro d hd ⟨ha, hb⟩
        rw [head?_replaceRuns, Option.mem_some_iff] at hd
        subst hd
        -- both characters come out as the mark, so both are of the class and make up a run
        have hOf : ∀ c, (if p c then mark else c) = mark → p c = true := by
          intro c hc
          by_cases hClass : p c = true
          · exact hClass
          · rw [if_neg hClass] at hc
            rwa [hc]
        exact hNotBoth (Bool.and_eq_true_iff.mpr ⟨hOf a ha, hOf b hb⟩)

/-- A text is left as it is if the mark is its only character of the class, and parted. -/
theorem replaceRuns_eq_self {cs : List Char} (hOnly : ∀ c ∈ cs, p c = true → c = mark)
    (hParted : Parted mark cs) : replaceRuns p mark cs = cs := by
  have hOne : ∀ c ∈ cs, (if p c then mark else c) = c := by
    intro c hc
    split
    · rename_i hClass
      exact (hOnly c hc hClass).symm
    · rfl
  induction cs with
  | nil => rfl
  | cons a rest ih =>
    obtain ⟨hOnlyHead, hOnlyRest⟩ := List.forall_mem_cons.mp hOnly
    obtain ⟨hHead, hRest⟩ := List.forall_mem_cons.mp hOne
    have hSelf := ih hOnlyRest (List.IsChain.tail hParted) hRest
    cases rest with
    | nil => rw [replaceRuns, hHead]
    | cons b rest =>
      have hApart : ¬ (p a && p b) = true := by
        intro hBoth
        obtain ⟨ha, hb⟩ := Bool.and_eq_true_iff.mp hBoth
        exact (List.isChain_cons_cons.mp hParted).1
          ⟨hOnlyHead ha, hOnlyRest b List.mem_cons_self hb⟩
      rw [replaceRuns, if_neg hApart, hHead, hSelf]

-- ---------------------------------------------------------------------------
-- Ends
-- ---------------------------------------------------------------------------

theorem dropWhile_head? {cs : List Char} {c : Char} (h : c ∈ (cs.dropWhile p).head?) : p c = false := by
  rw [← Bool.not_eq_true]
  intro hc
  have hFound := List.head?_dropWhile_not p cs
  rw [Option.mem_def.mp h] at hFound
  simp [hc] at hFound

/-- Trimming takes the front off first and then the back. -/
theorem trim_prefix_dropWhile (p : Char → Bool) (cs : List Char) : trim p cs <+: cs.dropWhile p := by
  rw [← List.reverse_suffix, trim, List.reverse_reverse]
  exact List.dropWhile_suffix p

/-- What is left stood together. -/
theorem trim_isInfix (p : Char → Bool) (cs : List Char) : trim p cs <:+: cs :=
  (trim_prefix_dropWhile p cs).isInfix.trans (List.dropWhile_suffix p).isInfix

theorem mem_trim {cs : List Char} {c : Char} (h : c ∈ trim p cs) : c ∈ cs :=
  (trim_isInfix p cs).subset h

/-- No character of the class comes last. -/
theorem trim_getLast? {cs : List Char} {c : Char} (h : c ∈ (trim p cs).getLast?) : p c = false := by
  rw [trim, List.getLast?_reverse] at h
  exact dropWhile_head? h

/-- Nor does one come first. -/
theorem trim_head? {cs : List Char} {c : Char} (h : c ∈ (trim p cs).head?) : p c = false := by
  obtain ⟨rest, hRest⟩ := trim_prefix_dropWhile p cs
  have hFront : c ∈ (cs.dropWhile p).head? := by
    rw [← hRest, List.head?_append, Option.mem_def.mp h]
    rfl
  exact dropWhile_head? hFront

/-- A text is left as it is if it neither starts nor ends with a character of the class. -/
theorem trim_eq_self {cs : List Char} (hFirst : ∀ c ∈ cs.head?, p c = false)
    (hLast : ∀ c ∈ cs.getLast?, p c = false) : trim p cs = cs := by
  have hKeep : ∀ ds : List Char, (∀ c ∈ ds.head?, p c = false) → ds.dropWhile p = ds := by
    intro ds hd
    cases ds with
    | nil => rfl
    | cons d ds =>
      rw [List.dropWhile_cons_of_neg]
      rw [hd d rfl]
      exact Bool.false_ne_true
  rw [trim, hKeep cs hFirst, hKeep cs.reverse, List.reverse_reverse]
  rwa [List.head?_reverse]

/-- The same where the class is that of the mark. -/
theorem trim_mark_eq_self {cs : List Char} (hFirst : ∀ c ∈ cs.head?, c ≠ mark)
    (hLast : ∀ c ∈ cs.getLast?, c ≠ mark) : trim (· == mark) cs = cs :=
  trim_eq_self (fun c hc => beq_eq_false_iff_ne.mpr (hFirst c hc))
    fun c hc => beq_eq_false_iff_ne.mpr (hLast c hc)

/-- A character of the class at the front does not matter. -/
theorem trim_cons {c : Char} (h : p c = true) (cs : List Char) : trim p (c :: cs) = trim p cs := by
  rw [trim, trim, List.dropWhile_cons_of_pos h]

/-- Nor does one at the back. -/
theorem trim_snoc {c : Char} (h : p c = true) (cs : List Char) : trim p (cs ++ [c]) = trim p cs := by
  rw [trim, trim, List.dropWhile_append]
  split
  · rename_i hNone
    rw [List.isEmpty_iff] at hNone
    simp [hNone, h]
  · rw [List.reverse_append, List.reverse_singleton, List.singleton_append,
      List.dropWhile_cons_of_pos h]

end ClientGen.Text
