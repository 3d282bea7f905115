import ClientGen.Proofs.Outcome
import Mathlib.Data.List.Perm.Basic

/-!
# Lists matched up to order

Two traversals of the same things in different orders are compared by pairing off
what they visit: `Matched R` says that the members of two lists can be paired so
that each is related to its partner. It is kept by whatever treats the members
one by one, and for equality it says that one list is a rearrangement of the other.

Main results:

* `Matched.flatMap` / `Matched.filter` — what is done member by member keeps lists
  matched.
* `Matched.mapM_ok` — if a traversal succeeds, so does the matched one, and their
  results are matched.
-/

namespace ClientGen

variable {ε α β γ δ : Type} {R : α → β → Prop}

/-- The members of the lists can be paired off so that partners are related. -/
inductive Matched (R : α → β → Prop) : List α → List β → Prop
  | nil : Matched R [] []
  | cons {x : α} {y : β} {xs : List α} {ys : List β} (head : R x y) (rest : Matched R xs ys) :
      Matched R (x :: xs) (y :: ys)
  /-- the order of the lists does not matter -/
  | perm {xs xs' : List α} {ys ys' : List β} (first : xs.Perm xs') (second : ys.Perm ys')
      (h : Matched R xs' ys') : Matched R xs ys

namespace Matched

/-- Related partners may be known to be related in another way. -/
theorem imp {S : α → β → Prop} {xs : List α} {ys : List β} (h : Matched R xs ys)
    (hStep : ∀ x ∈ xs, ∀ y, R x y → S x y) : Matched S xs ys := by
  induction h with
  | nil => exact nil
  | cons hHead _ ih =>
    refine cons (hStep _ List.mem_cons_self _ hHead) (ih ?_)
    intro x hx
    exact hStep x (List.mem_cons_of_mem _ hx)
  | perm hxs hys _ ih =>
    refine perm hxs hys (ih ?_)
    intro x hx
    exact hStep x (hxs.mem_iff.mpr hx)

theorem of_perm {R : α → α → Prop} {xs ys : List α} (hRefl : ∀ x ∈ ys, R x x) (h : xs.Perm ys) :
    Matched R xs ys := by
  refine perm h (List.Perm.refl ys) ?_
  clear h
  induction ys with
  | nil => exact nil
  | cons y ys ih =>
    obtain ⟨hHead, hRest⟩ := List.forall_mem_cons.mp hRefl
    exact cons hHead (ih hRest)

/-- Lists are matched by equality if one is a rearrangement of the other. -/
theorem perm_of_eq {xs ys : List α} (h : Matched Eq xs ys) : xs.Perm ys := by
  induction h with
  | nil => exact List.Perm.nil
  | cons hHead _ ih =>
    rw [hHead]
    exact ih.cons _
  | perm hxs hys _ ih => exact hxs.trans (ih.trans hys.symm)

theorem append {xs xs' : List α} {ys ys' : List β} (h : Matched R xs ys) (h' : Matched R xs' ys') :
    Matched R (xs ++ xs') (ys ++ ys') := by
  induction h with
  | nil => exact h'
  | cons hHead _ ih => exact cons hHead ih
  | perm hxs hys _ ih => exact perm (hxs.append_right xs') (hys.append_right ys') ih

theorem flatMap {S : γ → δ → Prop} {f : α → List γ} {g : β → List δ} {xs : List α} {ys : List β}
    (h : Matched R xs ys) (hStep : ∀ x y, R x y → Matched S (f x) (g y)) :
    Matched S (xs.flatMap f) (ys.flatMap g) := by
  induction h with
  | nil => exact nil
  | cons hHead _ ih => exact (hStep _ _ hHead).append ih
  | perm hxs hys _ ih => exact perm (hxs.flatMap_right f) (hys.flatMap_right g) ih

theorem filter {p : α → Bool} {q : β → Bool} {xs : List α} {ys : List β} (h : Matched R xs ys)
    (hStep : ∀ x y, R x y → p x = q y) : Matched R (xs.filter p) (ys.filter q) := by
  induction h with
  | nil => exact nil
  | cons hHead _ ih =>
    rw [List.filter_cons, List.filter_cons, hStep _ _ hHead]
    split
    · exact cons hHead ih
    · exact ih
  | perm hxs hys _ ih => exact perm (hxs.filter p) (hys.filter q) ih

/-- Lists of lists that are rearrangements of each other pair by pair contain the
same members. -/
theorem flatten_perm {xss yss : List (List α)} (h : Matched List.Perm xss yss) :
    xss.flatten.Perm yss.flatten := by
  have hMatched : Matched Eq (xss.flatMap id) (yss.flatMap id) :=
    h.flatMap fun _ _ hPerm => of_perm (fun _ _ => rfl) hPerm
  simpa using hMatched.perm_of_eq

end Matched

-- ---------------------------------------------------------------------------
-- Traversals
-- ---------------------------------------------------------------------------

/-- A traversal in another order succeeds as well, with the results in this order. -/
theorem exists_mapM_ok_of_perm {f : α → Except ε β} {xs xs' : List α} (hPerm : xs.Perm xs')
    {ys : List β} (h : xs.mapM f = .ok ys) : ∃ ys', xs'.mapM f = .ok ys' ∧ ys.Perm ys' := by
  induction hPerm generalizing ys with
  | nil => exact ⟨ys, h, List.Perm.refl ys⟩
  | cons x _ ih =>
    rw [List.mapM_cons] at h
    obtain ⟨y, hy, h⟩ := exists_of_bind_ok h
    obtain ⟨rest, hRest, h⟩ := exists_of_bind_ok h
    cases h
    obtain ⟨rest', hRest', hPerm⟩ := ih hRest
    refine ⟨y :: rest', ?_, hPerm.cons y⟩
    rw [List.mapM_cons, hy, ok_bind, hRest']
    rfl
  | swap x x' xs =>
    -- the two steps succeed in either order, since neither sees the other
    simp only [List.mapM_cons] at h ⊢
    obtain ⟨y', hy', h⟩ := exists_of_bind_ok h
    obtain ⟨rest, hRest, h⟩ := exists_of_bind_ok h
    cases h
    obtain ⟨y, hy, hRest⟩ := exists_of_bind_ok hRest
    obtain ⟨rest, hTail, hRest⟩ := exists_of_bind_ok hRest
    cases hRest
    refine ⟨y :: y' :: rest, ?_, List.Perm.swap y y' rest⟩
    rw [hy, ok_bind, hy', ok_bind, hTail]
    rfl
  | trans _ _ ih ih' =>
    obtain ⟨zs, hzs, hFirst⟩ := ih h
    obtain ⟨ws, hws, hSecond⟩ := ih' hzs
    exact ⟨ws, hws, hFirst.trans hSecond⟩

namespace Matched

/-- Matched lists are related member by member once the first is put in another order. -/
theorem exists_forall₂ {xs : List α} {ys : List β} (h : Matched R xs ys) :
    ∃ zs, xs.Perm zs ∧ List.Forall₂ R zs ys := by
  induction h with
  | nil => exact ⟨[], List.Perm.nil, List.Forall₂.nil⟩
  | cons hHead _ ih =>
    obtain ⟨zs, hPerm, hRest⟩ := ih
    exact ⟨_ :: zs, hPerm.cons _, List.Forall₂.cons hHead hRest⟩
  | perm hFirst hSecond _ ih =>
    obtain ⟨zs, hPerm, hRest⟩ := ih
    -- the order of the second list can be given to the first one as well
    have hComp : Relation.Comp (List.Forall₂ R) List.Perm zs _ := ⟨_, hRest, hSecond.symm⟩
    rw [List.forall₂_comp_perm_eq_perm_comp_forall₂] at hComp
    obtain ⟨ws, hOrder, hBoth⟩ := hComp
    exact ⟨ws, hFirst.trans (hPerm.trans hOrder), hBoth⟩

theorem of_forall₂ {xs : List α} {ys : List β} (h : List.Forall₂ R xs ys) : Matched R xs ys := by
  induction h with
  | nil => exact nil
  | cons hHead _ ih => exact cons hHead ih

/-- **Traversals of matched lists.** If each step of the one that succeeds can be
followed by the other, the other succeeds as well, with matched results. -/
theorem mapM_ok {S : γ → δ → Prop} {f : α → Except ε γ} {g : β → Except ε δ} {xs : List α}
    {ys : List β} (h : Matched R xs ys)
    (hStep : ∀ x y a, R x y → f x = .ok a → ∃ b, g y = .ok b ∧ S a b) {as : List γ}
    (hxs : xs.mapM f = .ok as) : ∃ bs, ys.mapM g = .ok bs ∧ Matched S as bs := by
  obtain ⟨zs, hPerm, hBoth⟩ := h.exists_forall₂
  obtain ⟨cs, hcs, hResults⟩ := exists_mapM_ok_of_perm hPerm hxs
  obtain ⟨bs, hbs, hRelated⟩ := exists_mapM_ok_of_forall₂ hBoth hStep hcs
  exact ⟨bs, hbs, perm hResults (List.Perm.refl bs) (of_forall₂ hRelated)⟩

end Matched

end ClientGen
