import ClientGen.Proofs.Enumeration.Assignment
import ClientGen.Proofs.Enumeration.Rearranged

/-!
# Names do not depend on the order

Which enumeration gets a contested name must not depend on what is found first, or
a document that is merely rearranged would rename the generated classes. The names
are given out in the order of `chooseBefore`. Two signatures that both come before
each other are the same, so sorting by it has one result, and from there on the
choices are made one after the other on the same lists.

Main results:

* `chooseBefore_linear` — no two signatures that occur are tied.
* `assignNames_eq_of_perm` — the names depend on the occurrences, not on their order.
* `collect_rearranged` — neither does the registry.
* `collect_twoModes` — it would if siblings could have one name.
-/

namespace ClientGen.Enumeration

open ClientGen.Api ClientGen.Document

-- ---------------------------------------------------------------------------
-- The order of proposals
-- ---------------------------------------------------------------------------

theorem Proposal.le_iff {p q : Proposal} :
    p.le q = true ↔ p.1 < q.1 ∨ p.1 = q.1 ∧ p.2 ≤ q.2 := by
  simp [Proposal.le]

/-- Proposals are ordered by rank and then by name. -/
theorem proposal_linear : LinearOn Proposal.le fun _ => True where
  trans := by
    intro p q r hpq hqr
    rw [Proposal.le_iff] at *
    rcases hpq with hpq | ⟨hpq, hNames⟩
    · rcases hqr with hqr | ⟨hqr, -⟩
      · exact Or.inl (Nat.lt_trans hpq hqr)
      · exact Or.inl (hqr ▸ hpq)
    · rcases hqr with hqr | ⟨hqr, hNames'⟩
      · exact Or.inl (hpq ▸ hqr)
      · exact Or.inr ⟨hpq.trans hqr, String.le_trans hNames hNames'⟩
  total := by
    intro p q
    rw [Bool.or_eq_true, Proposal.le_iff, Proposal.le_iff]
    rcases Nat.lt_trichotomy p.1 q.1 with hRank | hRank | hRank
    · exact Or.inl (Or.inl hRank)
    · rcases String.le_total p.2 q.2 with hName | hName
      · exact Or.inl (Or.inr ⟨hRank, hName⟩)
      · exact Or.inr (Or.inr ⟨hRank.symm, hName⟩)
    · exact Or.inr (Or.inl hRank)
  antisymm := by
    intro p q _ _ hpq hqp
    rw [Proposal.le_iff] at *
    rcases hpq with hpq | ⟨hpq, hNames⟩
    · omega
    · rcases hqp with hqp | ⟨-, hNames'⟩
      · omega
      · exact Prod.ext hpq (String.le_antisymm hNames hNames')

-- ---------------------------------------------------------------------------
-- The order of choosing
-- ---------------------------------------------------------------------------

theorem chooseBefore_iff {a b : String × List Proposal} :
    chooseBefore a b = true ↔ best a.2 = best b.2 ∧ a.1 ≤ b.1 ∨
      best a.2 ≠ best b.2 ∧ (best a.2).le (best b.2) = true := by
  unfold chooseBefore
  split
  · rename_i hBest
    rw [beq_iff_eq] at hBest
    simp [hBest]
  · rename_i hBest
    rw [beq_iff_eq] at hBest
    simp [hBest]

/-- A signature that occurs has one list of proposals. -/
theorem rankedProposals_inj {found : List Occurrence} {a b : String × List Proposal}
    (ha : a ∈ rankedProposals found) (hb : b ∈ rankedProposals found) (h : a.1 = b.1) : a = b := by
  obtain ⟨s, -, rfl⟩ := List.mem_map.mp ha
  obtain ⟨t, -, rfl⟩ := List.mem_map.mp hb
  obtain rfl : s = t := h
  rfl

/-- **No ties.** Of two signatures that occur one comes before the other. -/
theorem chooseBefore_linear (found : List Occurrence) :
    LinearOn chooseBefore (· ∈ rankedProposals found) where
  trans := by
    intro a b c hab hbc
    rw [chooseBefore_iff] at *
    rcases hab with ⟨hBest, hab⟩ | ⟨hDiffer, hab⟩
    · rcases hbc with ⟨hBest', hbc⟩ | ⟨hDiffer', hbc⟩
      · exact Or.inl ⟨hBest.trans hBest', String.le_trans hab hbc⟩
      · rw [hBest]
        exact Or.inr ⟨hDiffer', hbc⟩
    · rcases hbc with ⟨hBest', -⟩ | ⟨-, hbc⟩
      · rw [← hBest']
        exact Or.inr ⟨hDiffer, hab⟩
      · refine Or.inr ⟨?_, proposal_linear.trans _ _ _ hab hbc⟩
        -- going down and up again would make the first two equal
        intro hSame
        rw [← hSame] at hbc
        exact hDiffer (proposal_linear.antisymm _ _ trivial trivial hab hbc)
  total := by
    intro a b
    rw [Bool.or_eq_true, chooseBefore_iff, chooseBefore_iff]
    by_cases hBest : best a.2 = best b.2
    · rcases String.le_total a.1 b.1 with hab | hba
      · exact Or.inl (Or.inl ⟨hBest, hab⟩)
      · exact Or.inr (Or.inl ⟨hBest.symm, hba⟩)
    · have hTotal := proposal_linear.total (best a.2) (best b.2)
      rw [Bool.or_eq_true] at hTotal
      rcases hTotal with hab | hba
      · exact Or.inl (Or.inr ⟨hBest, hab⟩)
      · exact Or.inr (Or.inr ⟨Ne.symm hBest, hba⟩)
  antisymm := by
    intro a b ha hb hab hba
    rw [chooseBefore_iff] at *
    rcases hab with ⟨hBest, hab⟩ | ⟨hDiffer, hab⟩
    · rcases hba with ⟨-, hba⟩ | ⟨hDiffer, -⟩
      · exact rankedProposals_inj ha hb (String.le_antisymm hab hba)
      · exact absurd hBest.symm hDiffer
    · rcases hba with ⟨hBest, -⟩ | ⟨-, hba⟩
      · exact absurd hBest.symm hDiffer
      · exact absurd (proposal_linear.antisymm _ _ trivial trivial hab hba) hDiffer

-- ---------------------------------------------------------------------------
-- Names and definitions
-- ---------------------------------------------------------------------------

variable {found found' : List Occurrence}

theorem rankedProposals_perm (h : found.Perm found') :
    (rankedProposals found).Perm (rankedProposals found') := by
  have hRanked : ∀ signature : String,
      ((found.filter (·.signature == signature)).flatMap (·.proposals)).eraseDups.mergeSort
          Proposal.le =
        ((found'.filter (·.signature == signature)).flatMap (·.proposals)).eraseDups.mergeSort
          Proposal.le := by
    intro signature
    have hAll := (h.filter (·.signature == signature)).flatMap_right (·.proposals)
    exact eraseDups_mergeSort_eq proposal_linear (fun _ _ => trivial) fun _ => hAll.mem_iff
  have hSignatures := h.map (·.signature)
  unfold rankedProposals
  simp only [hRanked]
  exact (eraseDups_perm fun _ => hSignatures.mem_iff).map _

/-- **The names depend on the occurrences only.** -/
theorem assignNames_eq_of_perm (h : found.Perm found') : assignNames found = assignNames found' := by
  have hOrder : (rankedProposals found).mergeSort chooseBefore =
      (rankedProposals found').mergeSort chooseBefore :=
    mergeSort_eq_of_perm (chooseBefore_linear found) (fun _ hMem => hMem) (rankedProposals_perm h)
  unfold assignNames
  rw [hOrder]

theorem describe_eq_of_perm (h : found.Perm found') (signature : String) :
    describe found signature = describe found' signature := by
  have hListed := (h.filter (·.signature == signature)).filterMap (·.description)
  unfold describe
  rw [mergeSort_eq_of_perm string_linear (fun _ _ => trivial) hListed]

theorem definitionEntries_eq_of_perm (h : found.Perm found') (names : Dictionary String String) :
    definitionEntries found names = definitionEntries found' names := by
  unfold definitionEntries definition
  simp only [describe_eq_of_perm h]

-- ---------------------------------------------------------------------------
-- The registry
-- ---------------------------------------------------------------------------

/-- The assignments are the same mapping, if the occurrences have addresses of their own. -/
theorem assignments_get?_eq_of_perm (h : found.Perm found')
    (hUnique : found.Pairwise fun o o' => o.address ≠ o'.address)
    (hText : ∀ o ∈ found, o.address.Textual) (names : Dictionary String String) (address : Address) :
    (Dictionary.ofEntries (assignmentEntries found names)).get? address =
      (Dictionary.ofEntries (assignmentEntries found' names)).get? address := by
  have hUnique' := hUnique.perm h fun hDiffer => hDiffer.symm
  have hText' : ∀ o ∈ found', o.address.Textual := fun o ho => hText o (h.mem_iff.mpr ho)
  have hDistinct := assignmentEntries_distinct hUnique hText names
  have hDistinct' := assignmentEntries_distinct hUnique' hText' names
  have hExact : Dictionary.Exact (assignmentEntries found names) := by
    intro e he k
    obtain ⟨o, ho, rfl⟩ := List.mem_map.mp he
    exact Address.beq_iff (Or.inl (hText o ho))
  rw [Dictionary.ofEntries_eq_self hDistinct, Dictionary.ofEntries_eq_self hDistinct']
  exact hExact.get?_eq_of_perm hDistinct hDistinct' (h.map _) address

/-- Of two occurrences at one address the second one counts. -/
theorem assignments_get?_second {first second : Occurrence} {address : Address}
    (hText : address.Textual) (hFirst : first.address = address) (hSecond : second.address = address)
    (names : Dictionary String String) :
    (Dictionary.ofEntries (assignmentEntries [first, second] names)).get? address =
      some ((names.get? second.signature).getD "") := by
  have hSelf : (address == address) = true := (Address.beq_iff (Or.inl hText)).mpr rfl
  simp [assignmentEntries, Dictionary.ofEntries, Dictionary.overlay, Dictionary.put, Dictionary.get?,
    hFirst, hSecond, hSelf]

/--
**Enumerations do not depend on the order.** Let the endpoints of a specification, its
component schemas and the parameters of its slots come in any other order, and the
values of its enumerations in any order and number. Then its enumerations are collected
again, under the same names and with the same definitions in the same order. In normal
form, where endpoints have different keys and siblings different names, and where these
names are texts, the same name is assigned at every address as well. A specification that
is made of a document is in normal form (`ofDocument_normal`).
-/
theorem collect_rearranged {tables : Tables} {s s' : Specification} {r : Registry}
    (hSame : s.Rearranged s') (hCollect : (collect tables s).outcome = .ok r) :
    ∃ r', (collect tables s').outcome = .ok r' ∧ r'.bySignature = r.bySignature ∧
      r'.definitions = r.definitions ∧
      (s.Normal → (∀ e ∈ s.endpoints, e.Textual) →
        ∀ address, r'.assignments.get? address = r.assignments.get? address) := by
  obtain ⟨found, hFound, hNames, hDefinitions, hAssignments⟩ := exists_of_collect_ok hCollect
  obtain ⟨found', hFound', hPerm⟩ := occurrences_rearranged hSame hFound
  obtain ⟨r', hCollect'⟩ := exists_collect_ok hFound'
  obtain ⟨found'', hFound'', hNames', hDefinitions', hAssignments'⟩ := exists_of_collect_ok hCollect'
  obtain rfl : found' = found'' := Except.ok.inj (hFound'.symm.trans hFound'')
  -- sorted by choice, the two runs give out names from one list
  have hBySignature : r'.bySignature = r.bySignature := by
    rw [← assignNames_eq_of_perm hPerm, hNames] at hNames'
    exact (Except.ok.inj hNames').symm
  refine ⟨r', hCollect', hBySignature, ?_, ?_⟩
  · rw [hDefinitions', hBySignature, ← definitionEntries_eq_of_perm hPerm, hDefinitions]
  · -- without a repeated address the order of the entries does not matter
    intro hNormal hText address
    obtain ⟨hUnique, hTextual⟩ := occurrences_unique hNormal hText hFound
    rw [hAssignments', hBySignature, hAssignments]
    exact (assignments_get?_eq_of_perm hPerm hUnique hTextual _ address).symm

/-- A parameter with one of the given texts as its value. -/
def choice (name : String) (texts : List String) : Parameter where
  kind := .text
  nullable := false
  name := .str name
  enumValues := some (texts.map .str)

/-- An endpoint with the given query. -/
def shopEndpoint (name path : String) (query : List Parameter) : Endpoint where
  name := name
  method := .get
  path := path
  segments := []
  collection := "Shop"
  queryParameters := query

/-- A schema with one property that has one of the given texts as its value. -/
def choiceEntry (name property : String) (texts : List String) : Value × Value :=
  (.str name, .map [(.str "properties",
    .map [(.str property, .map [(.str "enum", .list (texts.map .str))])])])

/-- Three enumerations compete for the name of the parameter `mode`. -/
def shop : Specification where
  name := .str "Shop"
  description := .null
  components.schemas := [
    choiceEntry "Order" "mode" ["cash", "card"], choiceEntry "Item" "size" ["S"]]
  endpoints := [
    shopEndpoint "search" "/items" [choice "mode" ["fast", "exact"], choice "size" ["S", "M"]],
    shopEndpoint "order" "/orders" [choice "mode" ["draft", "final"]]]

/-- The same with everything in another order. -/
def shuffledShop : Specification where
  name := .str "Shop"
  description := .null
  components.schemas := [
    choiceEntry "Item" "size" ["S", "S"], choiceEntry "Order" "mode" ["card", "cash"]]
  endpoints := [
    shopEndpoint "order" "/orders" [choice "mode" ["final", "draft", "final"]],
    shopEndpoint "search" "/items" [choice "size" ["M", "S"], choice "mode" ["exact", "fast"]]]

theorem choice_alike {name : String} {texts texts' : List String} (h : ∀ t, t ∈ texts ↔ t ∈ texts') :
    (choice name texts).Alike (choice name texts') := by
  refine Parameter.Alike.intro rfl rfl ?_ Matched.nil
  intro v
  show v ∈ texts.map Value.str ↔ v ∈ texts'.map Value.str
  simp only [List.mem_map, h]

theorem choiceEntry_alike {name property : String} {texts texts' : List String}
    (h : ∀ t, t ∈ texts ↔ t ∈ texts') :
    (choiceEntry name property texts).1 = (choiceEntry name property texts').1 ∧
      (choiceEntry name property texts).2.Alike (choiceEntry name property texts').2 := by
  have hMembers : Value.SameMembers (texts.map .str) (texts'.map .str) := by
    intro v
    simp only [List.mem_map, h]
  have hSchema := Value.Alike.map (Value.EntriesAlike.enum hMembers Value.EntriesAlike.nil)
  have hProperties := Value.Alike.map (Value.EntriesAlike.cons (k := .str property)
    (fun _ _ hList => by cases hList) hSchema Value.EntriesAlike.nil)
  exact ⟨rfl, Value.Alike.map
    (Value.EntriesAlike.cons (fun _ _ hList => by cases hList) hProperties Value.EntriesAlike.nil)⟩

theorem shopEndpoint_alike {name path : String} {query query' : List Parameter}
    (h : Matched Parameter.Alike query query') :
    (shopEndpoint name path query).Alike (shopEndpoint name path query') := by
  refine ⟨rfl, rfl, rfl, rfl, ?_⟩
  intro slot
  cases slot with
  | query => exact h
  | _ => exact Matched.nil

theorem shop_rearranged : shop.Rearranged shuffledShop where
  endpoints := by
    refine Matched.perm (List.Perm.refl _) (List.Perm.swap _ _ []) ?_
    refine Matched.cons (shopEndpoint_alike ?_) (Matched.cons (shopEndpoint_alike ?_) Matched.nil)
    · refine Matched.perm (List.Perm.refl _) (List.Perm.swap _ _ []) ?_
      refine Matched.cons (choice_alike ?_) (Matched.cons (choice_alike ?_) Matched.nil)
      · simp [or_comm]
      · simp [or_comm]
    · refine Matched.cons (choice_alike ?_) Matched.nil
      intro t
      simp only [List.mem_cons, List.not_mem_nil, or_false]
      tauto
  schemas := by
    refine Matched.perm (List.Perm.refl _) (List.Perm.swap _ _ []) ?_
    refine Matched.cons (choiceEntry_alike ?_) (Matched.cons (choiceEntry_alike ?_) Matched.nil)
    · simp [or_comm]
    · simp

theorem shop_normal : shop.Normal where
  keys := by decide +kernel
  components := Value.textsApart_of_distinct (by decide +kernel)
  parameters := by
    have hLeaf : ∀ name texts, Schema.Apart (choice name texts) :=
      fun _ _ => Schema.Apart.of_no_properties rfl
    have hSlots : ∀ name path query, Schema.AllApart query → ∀ slot,
        Schema.AllApart ((shopEndpoint name path query).parameters slot) := by
      intro name path query hQuery slot
      cases slot with
      | query => exact hQuery
      | _ => exact Schema.allApart_nil
    simp only [shop, List.forall_mem_cons]
    refine ⟨hSlots _ _ _ ⟨?_, ?_⟩, hSlots _ _ _ ⟨?_, ?_⟩, by simp⟩
    · show List.Pairwise _ _
      decide +kernel
    · simp only [List.forall_mem_cons, hLeaf, true_and]
      simp
    · exact List.pairwise_singleton _ _
    · simp only [List.forall_mem_cons, hLeaf, true_and]
      simp

theorem exists_schemaOccurrences_choice {name property : String} {texts : List String}
    (hSigned : (signature (texts.map .str)).toOption.isSome = true)
    (hListed : Schema.literals? (texts.map .str) = some (texts.map .str)) :
    ∃ os, schemaOccurrences {} (choiceEntry name property texts) = .ok os := by
  obtain ⟨sig, hSig⟩ := exists_of_toOption_isSome hSigned
  have hProperties : componentProperties (choiceEntry name property texts).2 =
      .ok [(.str property, .map [(.str "enum", .list (texts.map .str))])] := by
    simp [componentProperties, choiceEntry, Value.field?, Dictionary.get?, Value.orElse, Value.isTruthy,
      Value.contribution, Value.elements, Dictionary.ofEntries, Dictionary.overlay, Dictionary.put]
  have hValues : Schema.enumValues? (.map [(.str "enum", .list (texts.map .str))]) =
      .ok (some (texts.map .str)) := by
    have hField : Value.field? (.map [(.str "enum", .list (texts.map .str))]) "enum" =
        some (.list (texts.map .str)) := by
      simp [Value.field?, Dictionary.get?]
    rw [Schema.enumValues?_of_list hField, hListed]
  have hOccurrence : ∃ os, propertyOccurrences {} name
      (.str property, .map [(.str "enum", .list (texts.map .str))]) = .ok os := by
    unfold propertyOccurrences occurrence
    rw [hValues, ok_bind]
    simp only [hSig, ok_bind]
    exact ⟨_, rfl⟩
  obtain ⟨os, hos⟩ := hOccurrence
  rw [schemaOccurrences_eq, hProperties, ok_bind]
  show ∃ os, ([_].mapM (propertyOccurrences {} name) >>= fun found => .ok found.flatten) = .ok os
  rw [List.mapM_cons, hos]
  exact ⟨_, rfl⟩

theorem exists_collect_shop : ∃ r, (collect {} shop).outcome = .ok r := by
  have hSchema : ∀ entry ∈ shop.components.schemas, ∃ os, schemaOccurrences {} entry = .ok os := by
    simp only [shop, List.forall_mem_cons]
    refine ⟨?_, ?_, by simp⟩
    · exact exists_schemaOccurrences_choice (by decide +kernel) rfl
    · exact exists_schemaOccurrences_choice (by decide +kernel) rfl
  have hEndpoint : ∀ e ∈ shop.endpoints, ∃ os, endpointOccurrences {} e = .ok os := by
    simp only [shop, List.forall_mem_cons]
    refine ⟨?_, ?_, by simp⟩
    · exact exists_of_toOption_isSome (by decide +kernel)
    · exact exists_of_toOption_isSome (by decide +kernel)
  obtain ⟨components, hComponents⟩ := exists_mapM_ok hSchema
  obtain ⟨endpoints, hEndpoints⟩ := exists_mapM_ok hEndpoint
  have hFound : occurrences {} shop = .ok (components.flatten ++ endpoints.flatten) := by
    unfold occurrences
    rw [hComponents, ok_bind, hEndpoints]
    rfl
  exact exists_collect_ok hFound

/-- The shuffled shop has the same enumerations as the shop. -/
theorem collect_shuffledShop :
    ∃ r r', (collect {} shop).outcome = .ok r ∧ (collect {} shuffledShop).outcome = .ok r' ∧
      r'.bySignature = r.bySignature ∧ r'.definitions = r.definitions ∧
      ∀ address, r'.assignments.get? address = r.assignments.get? address := by
  obtain ⟨r, hCollect⟩ := exists_collect_shop
  have hText : ∀ e ∈ shop.endpoints, e.Textual := by
    unfold Endpoint.Textual
    decide +kernel
  obtain ⟨r', hCollect', hNames, hDefinitions, hAssignments⟩ :=
    collect_rearranged shop_rearranged hCollect
  exact ⟨r, r', hCollect, hCollect', hNames, hDefinitions, hAssignments shop_normal hText⟩

-- ---------------------------------------------------------------------------
-- Siblings with one name
-- ---------------------------------------------------------------------------

/-- A search with two parameters called `mode`. -/
def twoModes (first second : String) : Specification where
  name := .str "Shop"
  description := .null
  endpoints := [shopEndpoint "search" "/items" [choice "mode" [first], choice "mode" [second]]]

/-- Where both are. -/
def modeAddress : Address := ⟨"GET /items", "query", [.str "mode"]⟩

/-- What is found for such a parameter. -/
def modeOccurrence (signature : String) : Occurrence where
  address := modeAddress
  signature := signature
  proposals := proposals {} "mode" (contextOf {} (shopEndpoint "search" "/items" []))
  description := none

theorem twoModes_rearranged (first second : String) :
    (twoModes first second).Rearranged (twoModes second first) where
  endpoints := by
    have hSame : ∀ text, (choice "mode" [text]).Alike (choice "mode" [text]) :=
      fun _ => choice_alike fun _ => Iff.rfl
    refine Matched.cons (shopEndpoint_alike ?_) Matched.nil
    exact Matched.perm (List.Perm.refl _) (List.Perm.swap _ _ [])
      (Matched.cons (hSame first) (Matched.cons (hSame second) Matched.nil))
  schemas := Matched.nil

theorem occurrence_choice {text sig : String} (h : signature [.str text] = .ok sig) :
    occurrence {} modeAddress [.str text] (.str "mode")
      (contextOf {} (shopEndpoint "search" "/items" [])) none = .ok (modeOccurrence sig) := by
  unfold occurrence
  rw [h, ok_bind, Value.asText, ok_bind]
  rfl

theorem occurrences_twoModes {first second sig sig' : String} (hFirst : signature [.str first] = .ok sig)
    (hSecond : signature [.str second] = .ok sig') :
    occurrences {} (twoModes first second) = .ok [modeOccurrence sig, modeOccurrence sig'] := by
  let search := shopEndpoint "search" "/items" [choice "mode" [first], choice "mode" [second]]
  have hListed : search.allParameters.filter (fun place => place.2.hasEnum) =
      [(modeAddress, choice "mode" [first]), (modeAddress, choice "mode" [second])] := rfl
  have hEndpoint : endpointOccurrences {} search = .ok [modeOccurrence sig, modeOccurrence sig'] := by
    unfold endpointOccurrences
    dsimp only
    rw [hListed]
    exact mapM_eq_ok_iff.mpr (.cons (occurrence_choice hFirst) (.cons (occurrence_choice hSecond) .nil))
  unfold occurrences
  show (Except.ok [] >>= fun _ => [search].mapM (endpointOccurrences {}) >>= _) = _
  rw [ok_bind, List.mapM_cons, hEndpoint]
  rfl

/-- The address of both is given to the enumeration of the second one. -/
theorem assignments_twoModes {first second sig sig' : String} (hFirst : signature [.str first] = .ok sig)
    (hSecond : signature [.str second] = .ok sig') :
    ∃ r names, (collect {} (twoModes first second)).outcome = .ok r ∧
      (assignNames [modeOccurrence sig, modeOccurrence sig']).outcome = .ok names ∧
      ∃ name, names.get? sig' = some name ∧ r.assignments.get? modeAddress = some name := by
  have hFound := occurrences_twoModes hFirst hSecond
  obtain ⟨r, hCollect⟩ := exists_collect_ok hFound
  obtain ⟨found, hFound', hNames, -, hAssignments⟩ := exists_of_collect_ok hCollect
  obtain rfl : [modeOccurrence sig, modeOccurrence sig'] = found :=
    Except.ok.inj (hFound.symm.trans hFound')
  have hText : modeAddress.Textual := by
    unfold Address.Textual
    decide +kernel
  obtain ⟨name, hName⟩ := (names_of_assignNames_ok hNames).exists_get?_iff.mpr
    ⟨modeOccurrence sig', by simp, rfl⟩
  refine ⟨r, _, hCollect, hNames, name, hName, ?_⟩
  rw [hAssignments, assignments_get?_second hText rfl rfl, hName]
  rfl

/-- **Siblings with one name.** Their order decides which enumeration is assigned. -/
theorem collect_twoModes :
    ((twoModes "fast" "exact").endpoints.map Endpoint.key).Nodup ∧
      (twoModes "fast" "exact").Rearranged (twoModes "exact" "fast") ∧
      ∃ r r', (collect {} (twoModes "fast" "exact")).outcome = .ok r ∧
        (collect {} (twoModes "exact" "fast")).outcome = .ok r' ∧
        r'.assignments.get? modeAddress ≠ r.assignments.get? modeAddress := by
  have hFast : signature [.str "fast"] = .ok "[\"fast\"]" := ok_of_toOption (by decide +kernel)
  have hExact : signature [.str "exact"] = .ok "[\"exact\"]" := ok_of_toOption (by decide +kernel)
  obtain ⟨r, names, hCollect, hNames, name, hName, hAssigned⟩ := assignments_twoModes hFast hExact
  obtain ⟨r', names', hCollect', hNames', name', hName', hAssigned'⟩ := assignments_twoModes hExact hFast
  refine ⟨List.nodup_singleton _, twoModes_rearranged _ _, r, r', hCollect, hCollect', ?_⟩
  rw [hAssigned, hAssigned']
  -- the names are given out alike, and different signatures have different ones
  rw [assignNames_eq_of_perm (List.Perm.swap _ _ []), hNames] at hNames'
  cases hNames'
  intro hSame
  cases hSame
  have hBoth := (names_of_assignNames_ok hNames).inj hName hName'
  exact absurd hBoth (by decide)

end ClientGen.Enumeration
