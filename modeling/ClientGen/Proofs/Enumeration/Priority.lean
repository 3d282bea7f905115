import ClientGen.Proofs.Enumeration.OrderFree
import ClientGen.Proofs.Naming.Identifiers
import Mathlib.Data.List.Induction

/-!
# Whose proposal counts

The signatures choose one after the other, in the order of their best proposals, and
each takes the best of its proposals that is still free. A signature that is late for
its best proposal falls back at once, on a worse proposal or on a number, and may so
take a name that a signature after it proposes with a better rank. This module shows
that nothing else can happen: who takes a name from a better claim has lost its own
best name before, to a third signature, and this name was no worse than the other's.

Main results:

* `Chosen.step` / `foldl_chooseNext` — what each signature found taken when it chose.
* `served_of_worse_claim` — a name goes to a worse claim only in this way.
* `fallback_over_wellKnown` — and in this way it does.
* `named_of_proposals` — what all proposals have, the chosen names have.
-/

namespace ClientGen.Enumeration

open ClientGen.Api ClientGen.Document ClientGen.Naming

-- ---------------------------------------------------------------------------
-- Proposals of signatures
-- ---------------------------------------------------------------------------

/-- The proposal is made at one of the occurrences of the signature. -/
def Proposes (found : List Occurrence) (signature : String) (p : Proposal) : Prop :=
  ∃ o ∈ found, o.signature = signature ∧ p ∈ o.proposals

/-- The best proposal of a signature. -/
structure IsBest (found : List Occurrence) (signature : String) (p : Proposal) : Prop where
  proposed : Proposes found signature p
  least    : ∀ q, Proposes found signature q → p.le q = true

/-- The signature was named by one of its proposals, and this one is at least as good as `p`. -/
def Served (found : List Occurrence) (names : Dictionary String String) (signature : String)
    (p : Proposal) : Prop :=
  ∃ q, Proposes found signature q ∧ q.le p = true ∧ names.get? signature = some q.2

/-- With these best proposals the first signature chooses before the second. -/
def Precedes (s : String) (b : Proposal) (t : String) (c : Proposal) : Prop :=
  b = c ∧ s ≤ t ∨ b ≠ c ∧ b.le c = true

variable {found : List Occurrence}

/-- The list that a signature chooses from holds its proposals. -/
theorem mem_ranked_iff {e : String × List Proposal} (he : e ∈ rankedProposals found) {p : Proposal} :
    p ∈ e.2 ↔ Proposes found e.1 p := by
  obtain ⟨signature, -, rfl⟩ := List.mem_map.mp he
  simp only [List.mem_mergeSort, List.mem_eraseDups, List.mem_flatMap, List.mem_filter, beq_iff_eq]
  constructor
  · rintro ⟨o, ⟨ho, hSignature⟩, hp⟩
    exact ⟨o, ho, hSignature, hp⟩
  · rintro ⟨o, ho, hSignature, hp⟩
    exact ⟨o, ⟨ho, hSignature⟩, hp⟩

theorem exists_occurrence_of_mem_ranked {e : String × List Proposal} (he : e ∈ rankedProposals found) :
    ∃ o ∈ found, o.signature = e.1 := by
  have hMem : e.1 ∈ (rankedProposals found).map Prod.fst := List.mem_map_of_mem he
  rw [rankedProposals_signatures, List.mem_eraseDups] at hMem
  exact List.mem_map.mp hMem

/-- Every signature that occurs has proposals. -/
theorem ranked_ne_nil {tables : Tables} {s : Specification} (hFound : occurrences tables s = .ok found)
    {e : String × List Proposal} (he : e ∈ rankedProposals found) : e.2 ≠ [] := by
  obtain ⟨o, ho, hSignature⟩ := exists_occurrence_of_mem_ranked he
  obtain ⟨parameter, text, hProposals⟩ := exists_proposals hFound o ho
  obtain ⟨p, hp⟩ := List.exists_mem_of_ne_nil _ (proposals_ne_nil tables parameter _)
  exact List.ne_nil_of_mem ((mem_ranked_iff he).mpr ⟨o, ho, hSignature, hProposals ▸ hp⟩)

/-- The list goes from the best to the worst. -/
theorem pairwise_ranked {e : String × List Proposal} (he : e ∈ rankedProposals found) :
    e.2.Pairwise fun p q => p.le q = true := by
  obtain ⟨signature, -, rfl⟩ := List.mem_map.mp he
  exact List.pairwise_mergeSort proposal_linear.trans proposal_linear.total _

theorem best_isBest {e : String × List Proposal} (he : e ∈ rankedProposals found) (hSome : e.2 ≠ []) :
    IsBest found e.1 (best e.2) := by
  have hSorted := pairwise_ranked he
  obtain ⟨p, rest, hList⟩ := List.exists_cons_of_ne_nil hSome
  have hBest : best e.2 = p := by
    rw [hList]
    rfl
  rw [hList, List.pairwise_cons] at hSorted
  rw [hBest]
  refine ⟨(mem_ranked_iff he).mp (hList ▸ List.mem_cons_self), ?_⟩
  intro q hq
  have hMem := (mem_ranked_iff he).mpr hq
  rw [hList] at hMem
  rcases List.mem_cons.mp hMem with rfl | hRest
  · exact Proposal.le_iff.mpr (Or.inr ⟨rfl, String.le_refl _⟩)
  · exact hSorted.1 q hRest

/-- A signature that occurs with proposals has a list to choose from. -/
theorem exists_ranked {s : String} {p : Proposal} (h : Proposes found s p) :
    ∃ e ∈ rankedProposals found, e.1 = s := by
  obtain ⟨o, ho, hSignature, -⟩ := h
  have hMem : s ∈ (rankedProposals found).map Prod.fst := by
    rw [rankedProposals_signatures, List.mem_eraseDups]
    exact List.mem_map.mpr ⟨o, ho, hSignature⟩
  exact List.mem_map.mp hMem

-- ---------------------------------------------------------------------------
-- One choice
-- ---------------------------------------------------------------------------

/-- A proposal that is free is taken, unless there is a better one. -/
theorem chooseName_of_free {taken : List String} {ranked : List Proposal} {p : Proposal}
    (hSorted : ranked.Pairwise fun p q => p.le q = true) (hMem : p ∈ ranked) (hFree : p.2 ∉ taken) :
    ∃ q ∈ ranked, q.le p = true ∧ chooseName taken ranked = q.2 := by
  unfold chooseName
  split
  · rename_i q hFind
    obtain ⟨-, before, after, rfl, hBefore⟩ := List.find?_eq_some_iff_append.mp hFind
    refine ⟨q, by simp, ?_, rfl⟩
    -- what comes before the choice is not free, so `p` is the choice or comes after it
    rcases List.mem_append.mp hMem with hMem | hMem
    · have hTaken := hBefore p hMem
      simp [hFree] at hTaken
    · rcases List.mem_cons.mp hMem with rfl | hMem
      · exact Proposal.le_iff.mpr (Or.inr ⟨rfl, String.le_refl _⟩)
      · have hRest := (List.pairwise_append.mp hSorted).2.1
        exact (List.pairwise_cons.mp hRest).1 p hMem
  · rename_i hNone
    have hTaken := List.find?_eq_none.mp hNone p hMem
    simp [hFree] at hTaken

-- ---------------------------------------------------------------------------
-- All choices
-- ---------------------------------------------------------------------------

/-- The names after the next signature has chosen. -/
def chooseNext (names : Dictionary String String) (next : String × List Proposal) :
    Dictionary String String :=
  names.put next.1 (chooseName names.values next.2)

/-- Each signature in `order` has its name, and it chose among those that the signatures
before it had left. -/
structure Chosen (order : List (String × List Proposal)) (names : Dictionary String String) : Prop where
  keys   : names.keys = order.map Prod.fst
  choice : ∀ before e, before ++ [e] <+: order → ∃ taken,
    names.get? e.1 = some (chooseName taken e.2) ∧
      ∀ n, n ∈ taken ↔ ∃ f ∈ before, names.get? f.1 = some n

/-- **Step.** The next signature finds the names of all before it taken. -/
theorem Chosen.step {order : List (String × List Proposal)} {names : Dictionary String String}
    {next : String × List Proposal} (h : Chosen order names)
    (hNodup : ((order ++ [next]).map Prod.fst).Nodup) :
    Chosen (order ++ [next]) (chooseNext names next) := by
  rw [List.map_append, List.nodup_append] at hNodup
  obtain ⟨hDone, -, hApart⟩ := hNodup
  have hNe : ∀ e ∈ order, next.1 ≠ e.1 := fun e he hSame =>
    hApart e.1 (List.mem_map_of_mem he) next.1 (by simp) hSame.symm
  have hNew : next.1 ∉ names.keys := by
    rw [h.keys]
    rintro hMem
    obtain ⟨e, he, hSame⟩ := List.mem_map.mp hMem
    exact hNe e he hSame.symm
  have hOld : ∀ e ∈ order, (chooseNext names next).get? e.1 = names.get? e.1 := fun e he =>
    Dictionary.get?_put_of_ne (hNe e he)
  constructor
  · unfold chooseNext
    rw [Dictionary.put_of_not_mem _ hNew, List.map_append, ← h.keys]
    exact List.map_append
  · intro before e hPrefix
    rcases List.prefix_concat_iff.mp hPrefix with hLast | hEarlier
    · obtain ⟨rfl, hSingle⟩ := List.append_inj' hLast rfl
      obtain rfl := List.singleton_inj.mp hSingle
      refine ⟨names.values, Dictionary.get?_put_self _ _ _, ?_⟩
      intro n
      have hDistinct : names.Distinct := by
        rw [Dictionary.distinct_iff_nodup, h.keys]
        exact hDone
      constructor
      · intro hMem
        obtain ⟨⟨k, _⟩, hEntry, rfl⟩ := List.mem_map.mp hMem
        have hKey : k ∈ before.map Prod.fst := h.keys ▸ List.mem_map_of_mem hEntry
        obtain ⟨f, hf, rfl⟩ := List.mem_map.mp hKey
        refine ⟨f, hf, ?_⟩
        rw [hOld f hf]
        exact (Dictionary.get?_eq_some_iff hDistinct).mpr hEntry
      · rintro ⟨f, hf, hName⟩
        rw [hOld f hf] at hName
        exact List.mem_map_of_mem ((Dictionary.get?_eq_some_iff hDistinct).mp hName)
    · obtain ⟨taken, hName, hTaken⟩ := h.choice before e hEarlier
      have hBefore : ∀ f ∈ before ++ [e], f ∈ order := fun f hf => hEarlier.subset hf
      refine ⟨taken, ?_, ?_⟩
      · rw [hOld e (hBefore e (by simp)), hName]
      · intro n
        rw [hTaken n]
        refine exists_congr fun f => and_congr_right fun hf => ?_
        rw [hOld f (hBefore f (by simp [hf]))]

/-- **Run.** When every signature comes up once, each one chooses among the names left by those
before it. -/
theorem foldl_chooseNext {order : List (String × List Proposal)}
    (hNodup : (order.map Prod.fst).Nodup) : Chosen order (order.foldl chooseNext []) := by
  induction order using List.reverseRecOn with
  | nil => exact ⟨rfl, fun before e hPrefix => by simp at hPrefix⟩
  | append_singleton order next ih =>
    rw [List.foldl_append]
    refine Chosen.step (ih ?_) hNodup
    rw [List.map_append] at hNodup
    exact (List.nodup_append.mp hNodup).1

theorem foldlM_assign_outcome (order : List (String × List Proposal)) (names : Dictionary String String) :
    (order.foldlM assign names).outcome = .ok (order.foldl chooseNext names) := by
  induction order generalizing names with
  | nil => rfl
  | cons next order ih =>
    rw [Journal.outcome_foldlM, List.foldlM_cons, assign_outcome, ok_bind, ← Journal.outcome_foldlM]
    exact ih _

/-- The order in which the signatures that occur choose. -/
def choosingOrder (found : List Occurrence) : List (String × List Proposal) :=
  (rankedProposals found).mergeSort chooseBefore

theorem mem_choosingOrder {e : String × List Proposal} :
    e ∈ choosingOrder found ↔ e ∈ rankedProposals found :=
  List.mem_mergeSort

theorem assignNames_chosen {names : Dictionary String String}
    (h : (assignNames found).outcome = .ok names) : Chosen (choosingOrder found) names := by
  have hRun := foldlM_assign_outcome (choosingOrder found) []
  obtain rfl : names = (choosingOrder found).foldl chooseNext [] := Except.ok.inj (h.symm.trans hRun)
  refine foldl_chooseNext ?_
  have hPerm := (List.mergeSort_perm (rankedProposals found) chooseBefore).map Prod.fst
  rw [rankedProposals_signatures] at hPerm
  exact hPerm.nodup_iff.mpr (nodup_eraseDups _)

/-- A signature that is not served by one of its proposals finds it taken by a signature that
comes before it. -/
theorem Chosen.taken_of_not_served {names : Dictionary String String}
    (h : Chosen (choosingOrder found) names) {e : String × List Proposal}
    (he : e ∈ rankedProposals found) {p : Proposal} (hp : Proposes found e.1 p)
    (hNot : ¬ Served found names e.1 p) :
    ∃ f ∈ rankedProposals found, names.get? f.1 = some p.2 ∧ chooseBefore f e = true := by
  obtain ⟨before, after, hOrder⟩ := List.append_of_mem (mem_choosingOrder.mpr he)
  obtain ⟨taken, hName, hTaken⟩ := h.choice before e (by rw [hOrder]; simp)
  have hMem : p.2 ∈ taken := by
    by_contra hFree
    obtain ⟨q, hq, hBetter, hChosen⟩ :=
      chooseName_of_free (pairwise_ranked he) ((mem_ranked_iff he).mpr hp) hFree
    exact hNot ⟨q, (mem_ranked_iff he).mp hq, hBetter, hChosen ▸ hName⟩
  obtain ⟨f, hf, hHolder⟩ := (hTaken p.2).mp hMem
  refine ⟨f, mem_choosingOrder.mp (hOrder ▸ List.mem_append_left _ hf), hHolder, ?_⟩
  have hSorted : (choosingOrder found).Pairwise fun a b => chooseBefore a b = true :=
    List.pairwise_mergeSort (chooseBefore_linear found).trans (chooseBefore_linear found).total _
  rw [hOrder] at hSorted
  exact (List.pairwise_append.mp hSorted).2.2 f hf e List.mem_cons_self

-- ---------------------------------------------------------------------------
-- Worse claims
-- ---------------------------------------------------------------------------

/-- The signature `s` chooses before `t` but did not get its best name, which a third signature had
taken that chose before both. -/
def PushedOff (found : List Occurrence) (names : Dictionary String String) (s t : String) : Prop :=
  ∃ u a b c, u ≠ s ∧ u ≠ t ∧ IsBest found u a ∧ IsBest found s b ∧ IsBest found t c ∧
    Precedes u a s b ∧ Precedes s b t c ∧ names.get? u = some b.2 ∧ names.get? s ≠ some b.2

/-- The claim on a name with rank `r` is good for that name or a better one, unless the signature
that has the name without so good a claim was pushed off its own. -/
theorem Chosen.served_or_pushedOff {names : Dictionary String String}
    (h : Chosen (choosingOrder found) names) (hNames : Names found names)
    (hSome : ∀ e ∈ rankedProposals found, e.2 ≠ []) {s t n : String} {r : Nat} (hDiffer : s ≠ t)
    (hs : names.get? s = some n) (ht : Proposes found t (r, n))
    (hWorse : ∀ q, Proposes found s (q, n) → r < q) :
    Served found names t (r, n) ∨ PushedOff found names s t := by
  rcases Classical.em (Served found names t (r, n)) with hServed | hNot
  · exact Or.inl hServed
  refine Or.inr ?_
  obtain ⟨e, he, rfl⟩ := exists_ranked ht
  obtain ⟨f, hf, hHolder, hBefore⟩ := h.taken_of_not_served he ht hNot
  -- nobody but `s` has the name, so `s` has chosen before `t`
  obtain rfl := hNames.inj hHolder hs
  have hBestS := best_isBest hf (hSome f hf)
  have hBestT := best_isBest he (hSome e he)
  have hOrder := chooseBefore_iff.mp hBefore
  have hBetter : (best f.2).le (r, n) = true := by
    refine proposal_linear.trans _ _ _ ?_ (hBestT.least _ ht)
    rcases hOrder with ⟨hSame, -⟩ | ⟨-, hLe⟩
    · exact Proposal.le_iff.mpr (Or.inr ⟨congrArg Prod.fst hSame, hSame ▸ String.le_refl _⟩)
    · exact hLe
  -- the best proposal of `s` is too good to be one for this name
  have hOther : (best f.2).2 ≠ n := by
    intro hSame
    have hRank := hWorse (best f.2).1 (hSame ▸ hBestS.proposed)
    rcases Proposal.le_iff.mp hBetter with hLt | ⟨hEq, -⟩
    · exact Nat.lt_asymm hRank hLt
    · exact Nat.ne_of_gt hRank hEq
  have hMissed : ¬ Served found names f.1 (best f.2) := by
    rintro ⟨q, hq, hLe, hName⟩
    obtain rfl := proposal_linear.antisymm _ _ trivial trivial hLe (hBestS.least q hq)
    exact hOther (Option.some.inj (hName.symm.trans hs))
  obtain ⟨g, hg, hTaker, hFirst⟩ := h.taken_of_not_served hf hBestS.proposed hMissed
  refine ⟨g.1, best g.2, best f.2, best e.2, ?_, ?_, best_isBest hg (hSome g hg), hBestS, hBestT,
    chooseBefore_iff.mp hFirst, hOrder, hTaker, ?_⟩
  · intro hSame
    rw [hSame] at hTaker
    exact hOther (Option.some.inj (hTaker.symm.trans hs))
  · -- the choices would go round in a circle
    intro hSame
    obtain rfl := rankedProposals_inj hg he hSame
    exact hDiffer (congrArg Prod.fst ((chooseBefore_linear found).antisymm _ _ hf hg hBefore hFirst))
  · intro hSame
    exact hOther (Option.some.inj (hSame.symm.trans hs))

/--
**A name goes to a worse claim only by falling back.** Let a signature propose a name with
some rank, and let another signature that has no claim of this rank or a better one on the
name have it in the end. Then the first signature was named by this proposal or a better
one, or the other was pushed off its own best name: it chose before the first since this
name was no worse than the first one's best, and a third signature had taken it.
-/
theorem served_of_worse_claim {tables : Tables} {specification : Specification}
    {found : List Occurrence} {registry : Registry}
    (hFound : occurrences tables specification = .ok found)
    (hCollect : (collect tables specification).outcome = .ok registry) {s t n : String} {r : Nat}
    (hDiffer : s ≠ t) (hs : registry.bySignature.get? s = some n) (ht : Proposes found t (r, n))
    (hWorse : ∀ q, Proposes found s (q, n) → r < q) :
    Served found registry.bySignature t (r, n) ∨ PushedOff found registry.bySignature s t := by
  obtain ⟨found', hFound', hRun, -, -⟩ := exists_of_collect_ok hCollect
  obtain rfl : found = found' := Except.ok.inj (hFound.symm.trans hFound')
  refine (assignNames_chosen hRun).served_or_pushedOff (names_of_assignNames_ok hRun) ?_ hDiffer hs ht
    hWorse
  exact fun e he => ranked_ne_nil hFound he

-- ---------------------------------------------------------------------------
-- The words of names
-- ---------------------------------------------------------------------------

section Words

variable {tables : Tables} {s : Specification} {registry : Registry} {P : String → Prop}

/-- What is chosen is proposed, or proposed with a number. -/
theorem chooseName_of_proposals {taken : List String} {ranked : List Proposal} (hSome : ranked ≠ [])
    (hAll : ∀ p ∈ ranked, P p.2) (hNumber : ∀ name (n : Nat), P name → P (name ++ toString n)) :
    P (chooseName taken ranked) := by
  unfold chooseName
  split
  · rename_i p hFind
    exact hAll p (List.mem_of_find?_eq_some hFind)
  · obtain ⟨p, rest, rfl⟩ := List.exists_cons_of_ne_nil hSome
    have hBest : P (best (p :: rest)).2 := hAll p List.mem_cons_self
    unfold fresh numbered
    split
    · exact hBest
    · rw [String.append_empty]
      exact hNumber _ _ hBest

/-- What all proposals have and no number takes from them, the names of a registry have. -/
theorem named_of_proposals (hRegistry : (collect tables s).outcome = .ok registry)
    (hProposals : ∀ parameter text, ∀ p ∈ proposals tables parameter (pascal text), P p.2)
    (hNumber : ∀ name (n : Nat), P name → P (name ++ toString n)) :
    ∀ name ∈ registry.bySignature.values, P name := by
  obtain ⟨found, hFound, hRun, -, -⟩ := exists_of_collect_ok hRegistry
  unfold assignNames at hRun
  rw [Journal.outcome_foldlM] at hRun
  refine foldlM_ok_induction (fun names : Dictionary String String =>
    ∀ chosen ∈ names.values, P chosen) ?_ ?_ hRun
  · exact fun _ hMem => absurd hMem List.not_mem_nil
  · intro names next names' hNext hBefore hStep
    have hNext := List.mem_mergeSort.mp hNext
    rw [assign_outcome] at hStep
    cases hStep
    intro chosen hMem
    rcases Dictionary.mem_values_put hMem with hOld | rfl
    · exact hBefore chosen hOld
    · refine chooseName_of_proposals (ranked_ne_nil hFound hNext) ?_ hNumber
      intro p hp
      obtain ⟨o, ho, -, hMem⟩ := (mem_ranked_iff hNext).mp hp
      obtain ⟨parameter, text, hProposed⟩ := exists_proposals hFound o ho
      exact hProposals parameter text p (hProposed ▸ hMem)

theorem defined_of_proposals (hRegistry : (collect tables s).outcome = .ok registry)
    (hProposals : ∀ parameter text, ∀ p ∈ proposals tables parameter (pascal text), P p.2)
    (hNumber : ∀ name (n : Nat), P name → P (name ++ toString n)) {name : String}
    (hName : registry.Defines name) : P name := by
  obtain ⟨found, -, hRun, hDefinitions, -⟩ := exists_of_collect_ok hRegistry
  rw [Registry.Defines, (names_of_assignNames_ok hRun).definitions_eq hDefinitions] at hName
  obtain ⟨d, hd, rfl⟩ := List.mem_map.mp hName
  obtain ⟨entry, hEntry, rfl⟩ := List.mem_map.mp hd
  obtain ⟨named, hNamed, rfl⟩ := List.mem_map.mp hEntry
  exact named_of_proposals hRegistry hProposals hNumber _
    (List.mem_map_of_mem (List.mem_mergeSort.mp hNamed))

theorem isIdentifier_guardWord : IsIdentifier guardWord := by decide

/-- All names that are proposed are guarded. -/
theorem isIdentifier_of_mem_proposals {parameter context : String} :
    ∀ p ∈ proposals tables parameter context, IsIdentifier p.2 := by
  intro p hp
  simp only [proposals, List.mem_append, List.mem_singleton] at hp
  rcases hp with (hWellKnown | hShared) | rfl
  · split at hWellKnown
    · split at hWellKnown
      · cases hWellKnown
      · rw [List.mem_singleton.mp hWellKnown]
        exact isIdentifier_identifier isIdentifier_guardWord _
    · cases hWellKnown
  · split at hShared
    · rw [List.mem_singleton.mp hShared]
      exact isIdentifier_identifier isIdentifier_guardWord _
    · cases hShared
  · exact isIdentifier_identifier isIdentifier_guardWord _

/-- Whatever the tables, the names of a registry are identifiers. -/
theorem isIdentifier_of_named (hRegistry : (collect tables s).outcome = .ok registry) :
    ∀ name ∈ registry.bySignature.values, IsIdentifier name :=
  named_of_proposals hRegistry (fun _ _ => isIdentifier_of_mem_proposals)
    fun _ n hBefore => (hBefore.append_number n).toIsIdentifier

end Words

-- ---------------------------------------------------------------------------
-- Three signatures
-- ---------------------------------------------------------------------------

/-- Three lists of values. The first two are those of parameters named `method`, the third is
the one of a parameter with a well-known name of its own. -/
def accounts : Specification where
  name := .str "Accounts"
  description := .null
  endpoints := [
    shopEndpoint "login" "/login" [choice "method" ["code"]],
    shopEndpoint "twoFa" "/twoFa" [choice "method" ["mail"]],
    shopEndpoint "profile" "/profile" [choice "twoFaMethod" ["totp"]]]

/-- What is proposed for the three. -/
def accountProposals : List (String × List Proposal) := [
  ("[\"code\"]", [(1, "Method"), (3, "LoginMethod")]),
  ("[\"mail\"]", [(1, "Method"), (3, "TwoFaMethod")]),
  ("[\"totp\"]", [(1, "TwoFaMethod"), (2, "TwoFaMethod"), (3, "ProfileTwoFaMethod")])]

theorem exists_occurrences_accounts :
    ∃ found, occurrences {} accounts = .ok found ∧
      found.map (fun o => (o.signature, o.proposals)) = accountProposals := by
  have hAll : (occurrences {} accounts).toOption.map
      (fun found => found.map fun o => (o.signature, o.proposals)) = some accountProposals := by
    decide +kernel
  obtain ⟨found, hFound, hProposals⟩ := Option.map_eq_some_iff.mp hAll
  exact ⟨found, ok_of_toOption hFound, hProposals⟩

/-- They choose in this order. -/
theorem choosingOrder_accounts {found : List Occurrence}
    (h : found.map (fun o => (o.signature, o.proposals)) = accountProposals) :
    choosingOrder found = accountProposals := by
  have hRanked : rankedProposals found = accountProposals := by
    have hSignatures : found.map (·.signature) = accountProposals.map Prod.fst := by
      rw [← h, List.map_map]
      rfl
    have hProposals : ∀ signature, (found.filter (·.signature == signature)).flatMap (·.proposals) =
        (accountProposals.filter (·.1 == signature)).flatMap Prod.snd := by
      intro signature
      rw [← h, List.filter_map, List.flatMap_map]
      rfl
    have hSorted : ∀ e ∈ accountProposals,
        (((accountProposals.filter (·.1 == e.1)).flatMap Prod.snd).eraseDups = e.2 ∧
          e.2.Pairwise fun p q => p.le q = true) := by
      decide +kernel
    have hOnce : (accountProposals.map Prod.fst).eraseDups = accountProposals.map Prod.fst := by
      decide +kernel
    unfold rankedProposals
    rw [hSignatures, hOnce, List.map_map]
    refine (List.map_congr_left ?_).trans (List.map_id _)
    intro e he
    obtain ⟨hOwn, hOrder⟩ := hSorted e he
    show (e.1, (((found.filter (·.signature == e.1)).flatMap (·.proposals)).eraseDups).mergeSort
      Proposal.le) = e
    rw [hProposals, hOwn, List.mergeSort_of_pairwise hOrder]
  have hOrder : accountProposals.Pairwise fun a b => chooseBefore a b = true := by decide +kernel
  unfold choosingOrder
  rw [hRanked, List.mergeSort_of_pairwise hOrder]

/-- The second signature falls back on the well-known name of the third. -/
def accountNames : Dictionary String String := [
  ("[\"code\"]", "Method"), ("[\"mail\"]", "TwoFaMethod"), ("[\"totp\"]", "ProfileTwoFaMethod")]

theorem exists_collect_accounts :
    ∃ found registry, occurrences {} accounts = .ok found ∧
      (collect {} accounts).outcome = .ok registry ∧ registry.bySignature = accountNames ∧
      ∀ s p, Proposes found s p ↔ ∃ e ∈ accountProposals, e.1 = s ∧ p ∈ e.2 := by
  obtain ⟨found, hFound, hProposals⟩ := exists_occurrences_accounts
  obtain ⟨registry, hCollect⟩ := exists_collect_ok hFound
  obtain ⟨found', hFound', hRun, -, -⟩ := exists_of_collect_ok hCollect
  obtain rfl : found = found' := Except.ok.inj (hFound.symm.trans hFound')
  refine ⟨found, registry, hFound, hCollect, ?_, ?_⟩
  · have hNames : accountProposals.foldl chooseNext [] = accountNames := by decide +kernel
    have hChoices := foldlM_assign_outcome (choosingOrder found) []
    rw [choosingOrder_accounts hProposals, hNames, ← choosingOrder_accounts hProposals] at hChoices
    exact Except.ok.inj (hRun.symm.trans hChoices)
  · intro s p
    rw [← hProposals]
    simp [Proposes]

/-- The second signature has the name by its context only, the third one, for which it is the
well-known name, has to do with a worse one. -/
theorem accounts_twoFaMethod {found : List Occurrence} {names : Dictionary String String}
    (hNames : names = accountNames)
    (hProposes : ∀ s p, Proposes found s p ↔ ∃ e ∈ accountProposals, e.1 = s ∧ p ∈ e.2) :
    names.get? "[\"mail\"]" = some "TwoFaMethod" ∧
      Proposes found "[\"totp\"]" (1, "TwoFaMethod") ∧
      (∀ q, Proposes found "[\"mail\"]" (q, "TwoFaMethod") → 1 < q) ∧
      ¬ Served found names "[\"totp\"]" (1, "TwoFaMethod") := by
  have hMail : ∀ e ∈ accountProposals, e.1 = "[\"mail\"]" →
      ∀ p ∈ e.2, p.2 = "TwoFaMethod" → 1 < p.1 := by
    decide +kernel
  have hTotp : ∀ e ∈ accountProposals, e.1 = "[\"totp\"]" → ∀ p ∈ e.2,
      p.le (1, "TwoFaMethod") = true → accountNames.get? "[\"totp\"]" ≠ some p.2 := by
    decide +kernel
  subst hNames
  refine ⟨by decide +kernel, ?_, ?_, ?_⟩
  · rw [hProposes]
    decide +kernel
  · intro q hq
    obtain ⟨e, he, hSignature, hMem⟩ := (hProposes _ _).mp hq
    exact hMail e he hSignature _ hMem rfl
  · rintro ⟨p, hp, hBetter, hName⟩
    obtain ⟨e, he, hSignature, hMem⟩ := (hProposes _ _).mp hp
    exact hTotp e he hSignature p hMem hBetter hName

/-- The rank is not all that counts: `TwoFaMethod`, which the third signature has from the table of
well-known names, goes to the second one, which proposes it from its context only. -/
theorem fallback_over_wellKnown :
    ∃ found registry, occurrences {} accounts = .ok found ∧
      (collect {} accounts).outcome = .ok registry ∧
      registry.bySignature.get? "[\"mail\"]" = some "TwoFaMethod" ∧
      Proposes found "[\"totp\"]" (1, "TwoFaMethod") ∧
      (∀ q, Proposes found "[\"mail\"]" (q, "TwoFaMethod") → 1 < q) ∧
      ¬ Served found registry.bySignature "[\"totp\"]" (1, "TwoFaMethod") := by
  obtain ⟨found, registry, hFound, hCollect, hNames, hProposes⟩ := exists_collect_accounts
  exact ⟨found, registry, hFound, hCollect, accounts_twoFaMethod hNames hProposes⟩

/-- The second signature had been pushed off its own best name, by the first. -/
theorem pushedOff_accounts :
    ∃ found registry, occurrences {} accounts = .ok found ∧
      (collect {} accounts).outcome = .ok registry ∧
      PushedOff found registry.bySignature "[\"mail\"]" "[\"totp\"]" := by
  obtain ⟨found, registry, hFound, hCollect, hNames, hProposes⟩ := exists_collect_accounts
  obtain ⟨hName, hClaim, hWorse, hNot⟩ := accounts_twoFaMethod hNames hProposes
  refine ⟨found, registry, hFound, hCollect, ?_⟩
  rcases served_of_worse_claim hFound hCollect (by decide) hName hClaim hWorse with hServed | hOff
  · exact absurd hServed hNot
  · exact hOff

end ClientGen.Enumeration
