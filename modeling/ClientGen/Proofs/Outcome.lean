import ClientGen.Journal
import ClientGen.Success
import Mathlib.Data.List.Forall2

/-!
# Outcomes of traversals

A pass of the generator goes through a list and either fails at some item or
yields a result for each. This module says so for `Except` and for `Journal`:
the outcome of a traversal in `Journal` is the traversal of the outcomes, a
traversal that succeeds pairs every item with its own result, and what each
step of a fold preserves holds at its end.

Main results:

* `pairwise_of_mapM_ok` — what tells any two items apart tells their results apart.
* `exists_mapM_ok_of_forall₂` — a traversal follows another one step by step.
* `mapM_eq_ok_iff` — a traversal pairs every item with its own result.
* `foldlM_ok_induction` — the invariant rule of a fold that succeeds.
* `Journal.outcome_mapM` / `Journal.outcome_foldlM` — remarks do not matter to
  what a traversal yields.
-/

namespace ClientGen

variable {ε α β : Type}

-- ---------------------------------------------------------------------------
-- Traversals that succeed
-- ---------------------------------------------------------------------------

@[simp] theorem ok_bind (a : α) (f : α → Except ε β) : (Except.ok a >>= f) = f a := rfl

@[simp] theorem error_bind (e : ε) (f : α → Except ε β) :
    ((Except.error e : Except ε α) >>= f) = .error e := rfl

/-- A value is a result. -/
theorem ok_of_toOption {x : Except ε α} {a : α} (h : x.toOption = some a) : x = .ok a := by
  cases x with
  | ok b =>
    cases h
    rfl
  | error _ => cases h

theorem exists_of_toOption_isSome {x : Except ε α} (h : x.toOption.isSome = true) :
    ∃ a, x = .ok a := by
  obtain ⟨a, ha⟩ := Option.isSome_iff_exists.mp h
  exact ⟨a, ok_of_toOption ha⟩

/-- A changed result comes from a result. -/
theorem exists_of_map_ok {f : α → β} {x : Except ε α} {b : β} (h : x.map f = .ok b) :
    ∃ a, x = .ok a ∧ f a = b := by
  cases x with
  | ok a => exact ⟨a, rfl, Except.ok.inj h⟩
  | error _ => cases h

theorem error_of_map_error {f : α → β} {x : Except ε α} {e : ε} (h : x.map f = .error e) :
    x = .error e := by
  cases x with
  | ok _ => cases h
  | error _ => rw [Except.error.inj h]

/-- Each item of a traversal that succeeded has a result. -/
theorem exists_of_mapM_ok {f : α → Except ε β} {xs : List α} {ys : List β}
    (h : xs.mapM f = .ok ys) : ∀ x ∈ xs, ∃ y ∈ ys, f x = .ok y := by
  induction xs generalizing ys with
  | nil => simp
  | cons x xs ih =>
    rw [List.mapM_cons] at h
    obtain ⟨y, hy, h⟩ := exists_of_bind_ok h
    obtain ⟨ys', hys, h⟩ := exists_of_bind_ok h
    cases h
    intro x' hx'
    rcases List.mem_cons.mp hx' with rfl | hx'
    · exact ⟨y, List.mem_cons_self, hy⟩
    · obtain ⟨y', hy', e⟩ := ih hys x' hx'
      exact ⟨y', List.mem_cons_of_mem _ hy', e⟩

/-- What is read off each result as off its item is read off the lists alike. -/
theorem map_eq_of_mapM_ok {γ : Type} {f : α → Except ε β} {xs : List α} {ys : List β} {g : α → γ}
    {k : β → γ} (h : xs.mapM f = .ok ys) (hStep : ∀ x ∈ xs, ∀ y, f x = .ok y → k y = g x) :
    ys.map k = xs.map g := by
  induction xs generalizing ys with
  | nil =>
    cases h
    rfl
  | cons x xs ih =>
    rw [List.mapM_cons] at h
    obtain ⟨y, hy, h⟩ := exists_of_bind_ok h
    obtain ⟨ys', hys, h⟩ := exists_of_bind_ok h
    cases h
    rw [List.map_cons, List.map_cons, hStep x List.mem_cons_self y hy,
      ih hys fun x hx => hStep x (List.mem_cons_of_mem _ hx)]

/-- A traversal each of whose steps succeeds succeeds. -/
theorem exists_mapM_ok {f : α → Except ε β} {xs : List α} (hStep : ∀ x ∈ xs, ∃ y, f x = .ok y) :
    ∃ ys, xs.mapM f = .ok ys := by
  induction xs with
  | nil => exact ⟨[], rfl⟩
  | cons x xs ih =>
    obtain ⟨y, hy⟩ := hStep x List.mem_cons_self
    obtain ⟨ys, hys⟩ := ih fun x hx => hStep x (List.mem_cons_of_mem _ hx)
    refine ⟨y :: ys, ?_⟩
    rw [List.mapM_cons, hy, ok_bind, hys]
    rfl

/-- What tells any two items apart tells the results of a traversal apart. -/
theorem pairwise_of_mapM_ok {f : α → Except ε β} {xs : List α} {ys : List β} {R : α → α → Prop}
    {S : β → β → Prop} (h : xs.mapM f = .ok ys) (hxs : xs.Pairwise R)
    (hStep : ∀ x ∈ xs, ∀ x' ∈ xs, ∀ y y', R x x' → f x = .ok y → f x' = .ok y' → S y y') :
    ys.Pairwise S := by
  induction xs generalizing ys with
  | nil =>
    cases h
    exact List.Pairwise.nil
  | cons x xs ih =>
    rw [List.mapM_cons] at h
    obtain ⟨y, hy, h⟩ := exists_of_bind_ok h
    obtain ⟨ys', hys, h⟩ := exists_of_bind_ok h
    cases h
    obtain ⟨hHead, hTail⟩ := List.pairwise_cons.mp hxs
    refine List.pairwise_cons.mpr ⟨?_, ?_⟩
    · intro y' hy'
      obtain ⟨x', hx', e⟩ := exists_of_mem_mapM hys y' hy'
      exact hStep x List.mem_cons_self x' (List.mem_cons_of_mem _ hx') y y' (hHead x' hx') hy e
    · refine ih hys hTail ?_
      intro a ha b hb
      exact hStep a (List.mem_cons_of_mem _ ha) b (List.mem_cons_of_mem _ hb)

/-- If each step of a traversal can be followed by that of another one, the other
succeeds as well, with related results. -/
theorem exists_mapM_ok_of_forall₂ {α' β' : Type} {R : α → α' → Prop} {S : β → β' → Prop}
    {f : α → Except ε β} {g : α' → Except ε β'} {xs : List α} {xs' : List α'} {ys : List β}
    (h : List.Forall₂ R xs xs')
    (hStep : ∀ x x' y, R x x' → f x = .ok y → ∃ y', g x' = .ok y' ∧ S y y')
    (hys : xs.mapM f = .ok ys) : ∃ ys', xs'.mapM g = .ok ys' ∧ List.Forall₂ S ys ys' := by
  induction h generalizing ys with
  | nil =>
    cases hys
    exact ⟨[], rfl, List.Forall₂.nil⟩
  | cons hHead _ ih =>
    rw [List.mapM_cons] at hys
    obtain ⟨y, hy, hys⟩ := exists_of_bind_ok hys
    obtain ⟨rest, hRest, hys⟩ := exists_of_bind_ok hys
    cases hys
    obtain ⟨y', hy', hSame⟩ := hStep _ _ y hHead hy
    obtain ⟨rest', hRest', hBoth⟩ := ih hRest
    refine ⟨y' :: rest', ?_, List.Forall₂.cons hSame hBoth⟩
    rw [List.mapM_cons, hy', ok_bind, hRest']
    rfl

/-- The same for folds. -/
theorem exists_foldlM_ok_of_forall₂ {α' β' : Type} {R : α → α' → Prop} {S : β → β' → Prop}
    {f : β → α → Except ε β} {g : β' → α' → Except ε β'} {xs : List α} {xs' : List α'} {b c : β}
    {b' : β'} (h : List.Forall₂ R xs xs') (hInit : S b b')
    (hStep : ∀ b b' x x' c, S b b' → R x x' → f b x = .ok c → ∃ c', g b' x' = .ok c' ∧ S c c')
    (hRun : xs.foldlM f b = .ok c) : ∃ c', xs'.foldlM g b' = .ok c' ∧ S c c' := by
  induction h generalizing b b' with
  | nil =>
    cases hRun
    exact ⟨b', rfl, hInit⟩
  | cons hHead _ ih =>
    rw [List.foldlM_cons] at hRun
    obtain ⟨d, hd, hRun⟩ := exists_of_bind_ok hRun
    obtain ⟨d', hd', hNext⟩ := hStep _ _ _ _ d hInit hHead hd
    rw [List.foldlM_cons, hd', ok_bind]
    exact ih hNext hRun

/-- The invariant rule of a fold that succeeds: what holds of the start and is
kept by each step that succeeds holds of the result. -/
theorem foldlM_ok_induction {f : β → α → Except ε β} {xs : List α} {b b' : β} (P : β → Prop)
    (hInit : P b) (hStep : ∀ c x c', x ∈ xs → P c → f c x = .ok c' → P c')
    (h : xs.foldlM f b = .ok b') : P b' := by
  induction xs generalizing b with
  | nil =>
    cases h
    exact hInit
  | cons x xs ih =>
    rw [List.foldlM_cons] at h
    obtain ⟨c, hc, h⟩ := exists_of_bind_ok h
    refine ih (hStep b x c List.mem_cons_self hInit hc) ?_ h
    intro d y d' hy hd e
    exact hStep d y d' (List.mem_cons_of_mem _ hy) hd e

/-- What one step of a fold brings about and each step keeps holds at the end. -/
theorem foldlM_ok_of_mem {f : β → α → Except ε β} {xs : List α} {x : α} {b b' : β} (P : β → Prop)
    (hMem : x ∈ xs) (hHere : ∀ c c', f c x = .ok c' → P c')
    (hKeep : ∀ c y c', y ∈ xs → P c → f c y = .ok c' → P c') (h : xs.foldlM f b = .ok b') :
    P b' := by
  obtain ⟨before, after, rfl⟩ := List.append_of_mem hMem
  rw [List.foldlM_append] at h
  obtain ⟨c, -, h⟩ := exists_of_bind_ok h
  rw [List.foldlM_cons] at h
  obtain ⟨d, hd, h⟩ := exists_of_bind_ok h
  refine foldlM_ok_induction P (hHere c d hd) ?_ h
  intro c y c' hy
  exact hKeep c y c' (List.mem_append_right _ (List.mem_cons_of_mem _ hy))

/-- A fold each of whose steps succeeds succeeds. -/
theorem exists_foldlM_ok {f : β → α → Except ε β} {xs : List α}
    (hStep : ∀ b, ∀ x ∈ xs, ∃ b', f b x = .ok b') (b : β) : ∃ b', xs.foldlM f b = .ok b' := by
  induction xs generalizing b with
  | nil => exact ⟨b, rfl⟩
  | cons x xs ih =>
    obtain ⟨c, hc⟩ := hStep b x List.mem_cons_self
    rw [List.foldlM_cons, hc, ok_bind]
    exact ih (fun b y hy => hStep b y (List.mem_cons_of_mem _ hy)) c

/-- Of two lists that are paired, each item of the second has a partner in the first. -/
theorem exists_left_of_forall₂ {R : α → β → Prop} {xs : List α} {ys : List β}
    (h : List.Forall₂ R xs ys) : ∀ y ∈ ys, ∃ x ∈ xs, R x y := by
  induction h with
  | nil => simp
  | cons hHead _ ih =>
    intro y hy
    rcases List.mem_cons.mp hy with rfl | hy
    · exact ⟨_, List.mem_cons_self, hHead⟩
    · obtain ⟨x, hx, hxy⟩ := ih y hy
      exact ⟨x, List.mem_cons_of_mem _ hx, hxy⟩

theorem exists_right_of_forall₂ {R : α → β → Prop} {xs : List α} {ys : List β}
    (h : List.Forall₂ R xs ys) : ∀ x ∈ xs, ∃ y ∈ ys, R x y :=
  exists_left_of_forall₂ (R := fun y x => R x y) h.flip

/-- A traversal pairs every item with its own result. -/
theorem mapM_eq_ok_iff {f : α → Except ε β} {xs : List α} {ys : List β} :
    xs.mapM f = .ok ys ↔ List.Forall₂ (fun x y => f x = .ok y) xs ys := by
  constructor
  · intro h
    induction xs generalizing ys with
    | nil =>
      cases h
      exact .nil
    | cons x xs ih =>
      rw [List.mapM_cons] at h
      obtain ⟨y, hy, h⟩ := exists_of_bind_ok h
      obtain ⟨rest, hRest, h⟩ := exists_of_bind_ok h
      cases h
      exact .cons hy (ih hRest)
  · intro h
    induction h with
    | nil => rfl
    | cons hHead _ ih =>
      rw [List.mapM_cons, hHead, ok_bind, ih]
      rfl

/-- A fold whose steps take in a result each takes in those of the traversal. -/
theorem foldlM_map {γ : Type} {f : α → Except ε γ} {g : β → γ → β} (xs : List α) (b : β) :
    xs.foldlM (fun b x => (f x).map (g b)) b = (xs.mapM f).map (List.foldl g b) := by
  induction xs generalizing b with
  | nil => rfl
  | cons x xs ih =>
    rw [List.foldlM_cons, List.mapM_cons]
    cases f x with
    | error _ => rfl
    | ok y =>
      show xs.foldlM _ (g b y) = _
      rw [ih, ok_bind]
      cases xs.mapM f <;> rfl

-- ---------------------------------------------------------------------------
-- Journals
-- ---------------------------------------------------------------------------

namespace Journal

@[simp] theorem outcome_lift (x : Except Fault α) :
    (liftM x : Journal α).outcome = x := rfl

theorem lift_ok_bind (a : α) (f : α → Journal β) :
    (liftM (.ok a : Except Fault α) : Journal α) >>= f = f a := rfl

theorem lift_error_bind (fault : Fault) (f : α → Journal β) :
    (liftM (.error fault : Except Fault α) : Journal α) >>= f =
      (liftM (.error fault : Except Fault β) : Journal β) := rfl

theorem outcome_ite (c : Prop) [Decidable c] (x y : Journal α) :
    (if c then x else y).outcome = if c then x.outcome else y.outcome := by
  split <;> rfl

@[simp] theorem outcome_map (f : α → β) (x : Journal α) :
    (f <$> x).outcome = f <$> x.outcome := by
  rw [map_eq_pure_bind, outcome_bind]
  cases x.outcome <;> rfl

/-- A run that succeeds succeeds through a value of its first step. -/
theorem exists_of_bind_ok {x : Journal α} {f : α → Journal β} {b : β}
    (h : (x >>= f).outcome = .ok b) : ∃ a, x.outcome = .ok a ∧ (f a).outcome = .ok b := by
  rw [outcome_bind] at h
  exact ClientGen.exists_of_bind_ok h

/-- A run each of whose steps succeeds succeeds. -/
theorem exists_bind_ok {x : Journal α} {f : α → Journal β} (hFirst : ∃ a, x.outcome = .ok a)
    (hRest : ∀ a, x.outcome = .ok a → ∃ b, (f a).outcome = .ok b) :
    ∃ b, (x >>= f).outcome = .ok b := by
  obtain ⟨a, ha⟩ := hFirst
  rw [outcome_bind, ha]
  exact hRest a ha

/-- The same for a first step that depends on a condition, which stands before
both copies of what follows. -/
theorem exists_of_ite_bind_ok {c : Prop} [Decidable c] {x y : Journal α} {f : α → Journal β} {b : β}
    (h : (if c then x >>= f else y >>= f).outcome = .ok b) :
    ∃ a, (if c then x else y).outcome = .ok a ∧ (f a).outcome = .ok b := by
  split at h
  · rename_i hc
    rw [if_pos hc]
    exact exists_of_bind_ok h
  · rename_i hc
    rw [if_neg hc]
    exact exists_of_bind_ok h

theorem exists_ite_bind_ok {c : Prop} [Decidable c] {x y : Journal α} {f : α → Journal β}
    (hx : ∃ a, x.outcome = .ok a) (hy : ∃ a, y.outcome = .ok a)
    (hRest : ∀ a, ∃ b, (f a).outcome = .ok b) :
    ∃ b, (if c then x >>= f else y >>= f).outcome = .ok b := by
  split
  · exact exists_bind_ok hx fun a _ => hRest a
  · exact exists_bind_ok hy fun a _ => hRest a

/-- The same where one of the first steps takes two steps itself. -/
theorem exists_of_ite_bind_bind_ok {γ : Type} {c : Prop} [Decidable c] {x : Journal γ}
    {g : γ → Journal α} {y : Journal α} {f : α → Journal β} {b : β}
    (h : (if c then x >>= fun d => g d >>= f else y >>= f).outcome = .ok b) :
    ∃ a, (f a).outcome = .ok b := by
  split at h
  · obtain ⟨d, -, h⟩ := exists_of_bind_ok h
    obtain ⟨a, -, h⟩ := exists_of_bind_ok h
    exact ⟨a, h⟩
  · obtain ⟨a, -, h⟩ := exists_of_bind_ok h
    exact ⟨a, h⟩

/-- The outcome of a traversal is the traversal of the outcomes. -/
@[simp] theorem outcome_mapM (f : α → Journal β) (xs : List α) :
    (xs.mapM f).outcome = xs.mapM fun x => (f x).outcome := by
  induction xs with
  | nil => rfl
  | cons x xs ih => simp [List.mapM_cons, ih]

/-- The outcome of a fold is the fold of the outcomes. -/
@[simp] theorem outcome_foldlM (f : β → α → Journal β) (xs : List α) (b : β) :
    (xs.foldlM f b).outcome = xs.foldlM (fun b x => (f b x).outcome) b := by
  induction xs generalizing b with
  | nil => rfl
  | cons x xs ih => simp [List.foldlM_cons, ih]

end Journal

end ClientGen
