import ClientGen.Proofs.Enumeration.Occurrences
import ClientGen.Proofs.Naming.Fresh
import ClientGen.Proofs.Sorting

/-!
# The assignment of enumeration names

The signatures that occur choose their names one after the other. Each takes a name
that none before it has, from its proposals or with a number after the best one, so
the table of names never overwrites an entry and never holds a name twice. All side
tables of the registry are filled from it and lose nothing.

Main results:

* `chooseName_not_mem` — what is chosen is free, whatever is proposed.
* `Assigned.step` / `exists_assigned` — one choice and all choices.
* `exists_of_collect_ok` — what the registry consists of.
* `defines_of_nameAt` / `defines_of_nameOf?` — names that are looked up are defined.
-/

namespace ClientGen.Enumeration

open ClientGen.Api ClientGen.Document ClientGen.Naming

-- ---------------------------------------------------------------------------
-- One choice
-- ---------------------------------------------------------------------------

/-- The chosen name is free, even when nothing is proposed. -/
theorem chooseName_not_mem (taken : List String) (ranked : List Proposal) :
    chooseName taken ranked ∉ taken := by
  unfold chooseName
  split
  · rename_i p hFind
    have hFree := List.find?_some hFind
    simpa using hFree
  · -- from 2 on the numbers give different names, so the search ends at a free one
    refine fresh_not_mem ?_
    intro i j hi hj hSame
    exact numbered_inj (by omega) (by omega) hSame

/-- A choice never fails. -/
theorem assign_outcome (names : Dictionary String String) (next : String × List Proposal) :
    (assign names next).outcome = .ok (names.put next.1 (chooseName names.values next.2)) := by
  unfold assign
  dsimp only
  split <;> rfl

/-- The signatures in `done` have names, and no two have the same. -/
structure Assigned (done : List String) (names : Dictionary String String) : Prop where
  keys   : names.keys = done
  values : names.values.Nodup

/-- **Step.** A signature without a name gets one that no other has. -/
theorem Assigned.step {done : List String} {names : Dictionary String String}
    {next : String × List Proposal} (h : Assigned done names) (hNew : next.1 ∉ done) :
    Assigned (done ++ [next.1]) (names.put next.1 (chooseName names.values next.2)) := by
  rw [Dictionary.put_of_not_mem _ (h.keys ▸ hNew)]
  constructor
  · rw [← h.keys]
    exact List.map_append
  · show (List.map _ (names ++ [_])).Nodup
    rw [List.map_append, List.nodup_append]
    refine ⟨h.values, List.nodup_singleton _, ?_⟩
    intro a ha b hb hSame
    rw [hSame, List.mem_singleton.mp hb] at ha
    exact chooseName_not_mem _ _ ha

-- ---------------------------------------------------------------------------
-- All choices
-- ---------------------------------------------------------------------------

/-- **Run.** When every signature comes up once, all get names, and no two the same. -/
theorem exists_assigned {order : List (String × List Proposal)} {done : List String}
    {names : Dictionary String String} (hStart : Assigned done names)
    (hOrder : (done ++ order.map Prod.fst).Nodup) :
    ∃ names', (order.foldlM assign names).outcome = .ok names' ∧
      Assigned (done ++ order.map Prod.fst) names' := by
  induction order generalizing done names with
  | nil => exact ⟨names, rfl, by simpa using hStart⟩
  | cons next order ih =>
    have hSplit : done ++ (next :: order).map Prod.fst = done ++ [next.1] ++ order.map Prod.fst := by
      simp
    -- the next signature is not among those done, as the order has none twice
    rw [hSplit] at hOrder ⊢
    have hNew : next.1 ∉ done := by
      intro hMem
      have hFront := (List.nodup_append.mp hOrder).1
      exact (List.nodup_append.mp hFront).2.2 next.1 hMem next.1 (by simp) rfl
    obtain ⟨names', hRun, hAll⟩ := ih (hStart.step hNew) hOrder
    refine ⟨names', ?_, hAll⟩
    rw [Journal.outcome_foldlM] at hRun ⊢
    rw [List.foldlM_cons, assign_outcome, ok_bind]
    exact hRun

/-- The signatures in the order in which they choose. -/
theorem rankedProposals_signatures (found : List Occurrence) :
    (rankedProposals found).map Prod.fst = (found.map (·.signature)).eraseDups := by
  unfold rankedProposals
  rw [List.map_map]
  exact List.map_id _

/-- Every signature that occurs has a name, and no two have the same. -/
theorem exists_assignNames_ok (found : List Occurrence) :
    ∃ names, (assignNames found).outcome = .ok names ∧ names.values.Nodup ∧
      names.keys.Perm (found.map (·.signature)).eraseDups := by
  have hPerm : (((rankedProposals found).mergeSort chooseBefore).map Prod.fst).Perm
      (found.map (·.signature)).eraseDups := by
    rw [← rankedProposals_signatures]
    exact (List.mergeSort_perm _ _).map _
  have hStart : Assigned [] [] := ⟨rfl, List.nodup_nil⟩
  obtain ⟨names, hRun, hAssigned⟩ :=
    exists_assigned hStart (hPerm.nodup_iff.mpr (nodup_eraseDups _))
  refine ⟨names, hRun, hAssigned.values, ?_⟩
  rw [hAssigned.keys]
  exact hPerm

/-- A single occurrence that proposes its names in order, and each once, gets the first. -/
theorem assignNames_singleton {o : Occurrence} {p : Proposal} {rest : List Proposal}
    (hProposals : o.proposals = p :: rest) (hOnce : (p :: rest).eraseDups = p :: rest)
    (hSorted : (p :: rest).Pairwise fun p q => p.le q = true) :
    (assignNames [o]).outcome = .ok [(o.signature, p.2)] := by
  have hRanked : rankedProposals [o] = [(o.signature, p :: rest)] := by
    have hOwn : ([o].filter (·.signature == o.signature)).flatMap (·.proposals) = p :: rest := by
      simp [hProposals]
    unfold rankedProposals
    rw [List.map_singleton, List.eraseDups_cons, List.filter_nil, List.eraseDups_nil, List.map_singleton,
      hOwn]
    dsimp only
    rw [hOnce, List.mergeSort_of_pairwise hSorted]
  unfold assignNames
  rw [hRanked, List.mergeSort_singleton, Journal.outcome_foldlM, List.foldlM_cons, assign_outcome, ok_bind]
  rfl

-- ---------------------------------------------------------------------------
-- The registry
-- ---------------------------------------------------------------------------

/-- The entries of the definitions, in the order of their names. -/
def definitionEntries (found : List Occurrence) (names : Dictionary String String) :
    List (String × Definition) :=
  (names.mergeSort fun a b => decide (a.2 ≤ b.2)).map fun e => (e.2, definition found e.1 e.2)

/-- The entries of the assignments, in the order of the occurrences. -/
def assignmentEntries (found : List Occurrence) (names : Dictionary String String) :
    List (Address × String) :=
  found.map fun o => (o.address, (names.get? o.signature).getD "")

/-- The registry is made of the occurrences and the names of their signatures. -/
theorem exists_of_collect_ok {tables : Tables} {s : Specification} {r : Registry}
    (h : (collect tables s).outcome = .ok r) :
    ∃ found, occurrences tables s = .ok found ∧ (assignNames found).outcome = .ok r.bySignature ∧
      r.definitions = Dictionary.ofEntries (definitionEntries found r.bySignature) ∧
      r.assignments = Dictionary.ofEntries (assignmentEntries found r.bySignature) := by
  unfold collect at h
  obtain ⟨found, hFound, h⟩ := Journal.exists_of_bind_ok h
  obtain ⟨names, hNames, h⟩ := Journal.exists_of_bind_ok h
  obtain ⟨_, -, h⟩ := Journal.exists_of_bind_ok h
  cases h
  exact ⟨found, hFound, hNames, rfl, rfl⟩

/-- Once the occurrences are found, nothing fails. -/
theorem exists_collect_ok {tables : Tables} {s : Specification} {found : List Occurrence}
    (h : occurrences tables s = .ok found) : ∃ r, (collect tables s).outcome = .ok r := by
  obtain ⟨names, hNames, -⟩ := exists_assignNames_ok found
  unfold collect
  rw [Journal.outcome_bind, Journal.outcome_lift, h, ok_bind, Journal.outcome_bind, hNames, ok_bind]
  exact ⟨_, rfl⟩

/-- Names of signatures that occur, each found under its own signature. -/
structure Names (found : List Occurrence) (names : Dictionary String String) : Prop where
  keys     : names.keys.Perm (found.map (·.signature)).eraseDups
  distinct : names.Distinct
  values   : names.values.Nodup

theorem names_of_assignNames_ok {found : List Occurrence} {names : Dictionary String String}
    (h : (assignNames found).outcome = .ok names) : Names found names := by
  obtain ⟨names', hRun, hValues, hKeys⟩ := exists_assignNames_ok found
  rw [h] at hRun
  cases hRun
  have hNodup : names.keys.Nodup := hKeys.nodup_iff.mpr (nodup_eraseDups _)
  exact ⟨hKeys, Dictionary.distinct_iff_nodup.mpr hNodup, hValues⟩

variable {found : List Occurrence} {names : Dictionary String String}

/-- A signature has a name exactly if it occurs. -/
theorem Names.exists_get?_iff (h : Names found names) {s : String} :
    (∃ name, names.get? s = some name) ↔ ∃ o ∈ found, o.signature = s := by
  rw [← Dictionary.mem_keys_iff, h.keys.mem_iff, List.mem_eraseDups, List.mem_map]

/-- Two signatures with one name are the same. -/
theorem Names.inj (h : Names found names) {s s' name : String} (hs : names.get? s = some name)
    (hs' : names.get? s' = some name) : s = s' := by
  rw [Dictionary.get?_eq_some_iff h.distinct] at hs hs'
  have hEntry := List.inj_on_of_nodup_map h.values hs hs' rfl
  exact congrArg Prod.fst hEntry

/-- The definitions lose nothing, since no two have the same name. -/
theorem Names.definitionEntries_distinct (h : Names found names) :
    Dictionary.Distinct (definitionEntries found names) := by
  rw [Dictionary.distinct_iff_nodup]
  show (List.map Prod.fst (definitionEntries found names)).Nodup
  rw [definitionEntries, List.map_map]
  have hPerm := (List.mergeSort_perm names fun a b => decide (a.2 ≤ b.2)).map Prod.snd
  exact hPerm.nodup_iff.mpr h.values

/-- The definitions are listed one by one. -/
theorem Names.definitions_eq {r : Registry} (h : Names found r.bySignature)
    (hDefinitions : r.definitions = Dictionary.ofEntries (definitionEntries found r.bySignature)) :
    r.definitions = definitionEntries found r.bySignature := by
  rw [hDefinitions, Dictionary.ofEntries_eq_self h.definitionEntries_distinct]

/-- The assignments lose nothing, since no two occurrences have the same address. -/
theorem assignmentEntries_distinct (hUnique : found.Pairwise fun o o' => o.address ≠ o'.address)
    (hText : ∀ o ∈ found, o.address.Textual) (names : Dictionary String String) :
    Dictionary.Distinct (assignmentEntries found names) := by
  unfold assignmentEntries Dictionary.Distinct
  rw [List.pairwise_map]
  refine hUnique.imp_of_mem ?_
  intro o o' ho _ hDiffer
  rw [← Bool.not_eq_true, Address.beq_iff (Or.inl (hText o ho))]
  exact hDiffer

-- ---------------------------------------------------------------------------
-- Looking up
-- ---------------------------------------------------------------------------

/-- The registry defines an enumeration of this name. -/
def Registry.Defines (r : Registry) (name : String) : Prop :=
  name ∈ r.definitions.values.map Definition.name

/-- The name of a signature is the name of its definition. -/
theorem exists_definition_of_get? {tables : Tables} {s : Specification} {r : Registry}
    (h : (collect tables s).outcome = .ok r) {signature name : String}
    (hName : r.bySignature.get? signature = some name) :
    ∃ d ∈ r.definitions.values, d.name = name ∧ d.signature = signature := by
  obtain ⟨found, -, hRun, hDefinitions, -⟩ := exists_of_collect_ok h
  have hNames := names_of_assignNames_ok hRun
  rw [Dictionary.get?_eq_some_iff hNames.distinct] at hName
  have hEntry : (name, definition found signature name) ∈ definitionEntries found r.bySignature :=
    List.mem_map.mpr ⟨(signature, name), List.mem_mergeSort.mpr hName, rfl⟩
  rw [← hNames.definitions_eq hDefinitions] at hEntry
  exact ⟨_, List.mem_map_of_mem hEntry, rfl, rfl⟩

theorem defines_of_get? {tables : Tables} {s : Specification} {r : Registry}
    (h : (collect tables s).outcome = .ok r) {signature name : String}
    (hName : r.bySignature.get? signature = some name) : r.Defines name := by
  obtain ⟨d, hd, hSame, -⟩ := exists_definition_of_get? h hName
  exact List.mem_map.mpr ⟨d, hd, hSame⟩

/-- The name at an address is the name of a definition: that of the signature which occurs there. -/
theorem defines_of_nameAt {tables : Tables} {s : Specification} {r : Registry}
    (h : (collect tables s).outcome = .ok r) {address : Address} {name : String}
    (hName : r.nameAt address = .ok name) : r.Defines name := by
  obtain ⟨found, -, hRun, -, hAssignments⟩ := exists_of_collect_ok h
  have hNames := names_of_assignNames_ok hRun
  have hValue : name ∈ r.assignments.values := by
    unfold Registry.nameAt at hName
    split at hName
    · rename_i hGet
      cases hName
      obtain ⟨e, he, -, rfl⟩ := Dictionary.exists_of_get? hGet
      exact List.mem_map_of_mem he
    · cases hName
  rw [hAssignments] at hValue
  obtain ⟨entry, hEntry, rfl⟩ := List.mem_map.mp (Dictionary.mem_values_ofEntries hValue)
  obtain ⟨o, ho, rfl⟩ := List.mem_map.mp hEntry
  -- every signature that occurs has a name, so the default for want of one is never written
  obtain ⟨name, hGet⟩ := hNames.exists_get?_iff.mpr ⟨o, ho, rfl⟩
  rw [hGet]
  exact defines_of_get? h hGet

/-- And so is the name that is found for listed values. -/
theorem defines_of_nameOf? {tables : Tables} {s : Specification} {r : Registry}
    (h : (collect tables s).outcome = .ok r) {values : List Value} {name : String}
    (hName : r.nameOf? values = .ok (some name)) : r.Defines name := by
  unfold Registry.nameOf? at hName
  obtain ⟨signature, -, hName⟩ := exists_of_bind_ok hName
  exact defines_of_get? h (Except.ok.inj hName)

end ClientGen.Enumeration
