import ClientGen.Proofs.Enumeration.CaseNames
import ClientGen.Proofs.Naming.Fresh
import ClientGen.Proofs.Naming.Identifiers
import Mathlib.Data.List.Forall2
import Mathlib.Data.List.Induction
import Mathlib.Data.List.Nodup

/-!
# Members are never merged

Values with one name, such as `a` and `A`, are told apart by numbers, and a numbered name
may be the plain name of a further value: `A_2` is that of `a-2`. So each name is chosen
apart from all names before it, whether they have numbers or not. What a value is called
depends on the values before it only.

Main results:

* `MemberAfter` — what the member of a value is, after those of the values before it.
* `membersFor_run` — a step keeps the members so far and adds such a member; so a run has no others.
* `members_of_literals` — the members of an enumeration.
-/

namespace ClientGen.Enumeration

open ClientGen.Document ClientGen.Document.Json ClientGen.Naming

-- ---------------------------------------------------------------------------
-- One member
-- ---------------------------------------------------------------------------

/-- The name for a text after the names in use: the name of the text, or this name with a number. -/
def memberName (used : List String) (text : String) : String :=
  fresh used (numbered (caseName text) "_") 1

theorem addMember_eq (ms : List (String × String)) (text : String) :
    addMember ms text = ms ++ [(memberName (ms.map Prod.fst) text, text)] := rfl

/-- The member comes after the names in use: it has none of them, and it has the name of its text unless
this one is in use. Then the least number that makes it free stands after it. -/
structure MemberAfter (used : List String) (m : String × String) : Prop where
  legal : IsMemberName m.1
  free : m.1 ∉ used
  plain : m.1 = caseName m.2 ↔ caseName m.2 ∉ used
  numbered : m.1 ≠ caseName m.2 → ∃ n, 2 ≤ n ∧ m.1 = caseName m.2 ++ "_" ++ toString n ∧
    ∀ k, 2 ≤ k → k < n → caseName m.2 ++ "_" ++ toString k ∈ used

theorem isMemberName_numbered (text : String) (n : Nat) :
    IsMemberName (caseName text ++ "_" ++ toString n) := by
  obtain ⟨hSome, hChars, hStart⟩ := (isCaseName_caseName text).toIsMemberName
  refine ⟨?_, ?_, ?_⟩
  · simp [hSome]
  · intro c hc
    rw [String.toList_append, String.toList_append, List.mem_append, List.mem_append] at hc
    rcases hc with (hc | hc) | hc
    · exact hChars c hc
    · exact Or.inr (by simpa using hc)
    · refine Or.inl ?_
      rw [isCaseChar, isDigit_of_mem_toString hc, Bool.or_true]
  · rw [String.toList_append, String.toList_append, List.append_assoc,
      startsWithDigit_append (by simpa using hSome)]
    exact hStart

theorem numbered_of_two_le (base mark : String) {n : Nat} (h : 2 ≤ n) :
    numbered base mark n = base ++ mark ++ toString n :=
  if_neg (by omega)

/-- Each name is chosen so. -/
theorem memberAfter_memberName (used : List String) (text : String) :
    MemberAfter used (memberName used text, text) := by
  have hInj : ∀ i j, 1 ≤ i → 1 ≤ j →
      numbered (caseName text) "_" i = numbered (caseName text) "_" j → i = j :=
    fun _ _ hi hj h => numbered_inj hi hj h
  obtain ⟨n, hFirst, hName⟩ : ∃ n, IsFirstFree used.contains (numbered (caseName text) "_") 1 n ∧
      memberName used text = numbered (caseName text) "_" n := fresh_isFirstFree hInj
  have hFree : memberName used text ∉ used := fresh_not_mem hInj
  have hBefore : ∀ k, 1 ≤ k → k < n → numbered (caseName text) "_" k ∈ used := fun k hk hkn =>
    List.contains_iff_mem.mp (hFirst.before k hk hkn)
  rcases Nat.eq_or_lt_of_le hFirst.le with rfl | hMore
  · have hSelf : memberName used text = caseName text := hName
    rw [hSelf] at hFree ⊢
    exact ⟨(isCaseName_caseName text).toIsMemberName, hFree, by simp [hFree], fun h => absurd rfl h⟩
  · have hNumber : memberName used text = caseName text ++ "_" ++ toString n := by
      rw [hName, numbered_of_two_le _ _ hMore]
    -- the search went past the name of the text
    have hUsed : caseName text ∈ used := hBefore 1 (Nat.le_refl 1) hMore
    have hOther : memberName used text ≠ caseName text := fun h => hFree (h ▸ hUsed)
    refine ⟨?_, hFree, ?_, fun _ => ⟨n, hMore, hNumber, ?_⟩⟩
    · rw [hNumber]
      exact isMemberName_numbered text n
    · exact ⟨fun h => absurd h hOther, fun h => absurd hUsed h⟩
    · intro k hk hkn
      rw [← numbered_of_two_le _ _ hk]
      exact hBefore k (by omega) hkn

-- ---------------------------------------------------------------------------
-- All members
-- ---------------------------------------------------------------------------

/-- The members for texts: one for each text in order, with different names, and each of them after the
names before it. -/
structure MembersFor (texts : List String) (ms : List (String × String)) : Prop where
  texts : ms.map Prod.snd = texts
  distinct : (ms.map Prod.fst).Nodup
  each : ∀ before m after, ms = before ++ m :: after → MemberAfter (before.map Prod.fst) m

/-- A further text keeps this. -/
theorem MembersFor.step {texts : List String} {ms : List (String × String)} (h : MembersFor texts ms)
    (text : String) : MembersFor (texts ++ [text]) (addMember ms text) := by
  have hNew := memberAfter_memberName (ms.map Prod.fst) text
  rw [addMember_eq]
  refine ⟨?_, ?_, ?_⟩
  · rw [List.map_append, h.texts]
    rfl
  · rw [List.map_append, List.nodup_append]
    refine ⟨h.distinct, List.nodup_singleton _, ?_⟩
    rintro name hName _ hOther rfl
    rw [List.map_singleton, List.mem_singleton] at hOther
    exact hNew.free (hOther ▸ hName)
  · intro before m after hSplit
    rcases List.eq_nil_or_concat after with rfl | ⟨after, last, rfl⟩
    · obtain ⟨rfl, hLast⟩ := List.append_inj' hSplit rfl
      rw [← List.singleton_inj.mp hLast]
      exact hNew
    · rw [List.concat_eq_append, ← List.cons_append, ← List.append_assoc] at hSplit
      exact h.each before m after (List.append_inj' hSplit rfl).1

theorem membersFor_run (texts : List String) : MembersFor texts (texts.foldl addMember []) := by
  induction texts using List.reverseRecOn with
  | nil => exact ⟨rfl, List.nodup_nil, by simp⟩
  | append_singleton texts text ih =>
    rw [List.foldl_append]
    exact ih.step text

/-- Further texts leave the members so far as they are. -/
theorem prefix_run (ms : List (String × String)) (texts : List String) :
    ms <+: texts.foldl addMember ms := by
  induction texts generalizing ms with
  | nil => exact List.prefix_refl ms
  | cons text texts ih =>
    rw [List.foldl_cons]
    exact (List.prefix_append ms _).trans (ih (addMember ms text))

/-- The members are those for the texts of the values. -/
theorem members_eq_ok_iff {values : List Value} {ms : List (String × String)} :
    members values = .ok ms ↔
      ∃ texts, values.mapM literalText = .ok texts ∧ texts.foldl addMember [] = ms := by
  unfold members
  constructor
  · intro h
    obtain ⟨texts, hTexts, h⟩ := exists_of_bind_ok h
    exact ⟨texts, hTexts, Except.ok.inj h⟩
  · rintro ⟨texts, hTexts, rfl⟩
    rw [hTexts]
    rfl

/--
**Members are never merged.** JSON values have members. Whatever values have members, they have one
for each value, in order, which stands for the text of its value. No two members have the same
name. Each name is made of capitals, digits and underscores and does not start with a digit; it
is the name of the value just where no member before it has that name, and otherwise this name with an
underscore and the least number from 2 on that is free. Further values leave the members as they are.
-/
theorem members_of_literals (values : List Value) :
    ((∀ v ∈ values, IsJson v) → ∃ ms, members values = .ok ms) ∧
    ∀ ms, members values = .ok ms →
      List.Forall₂ (fun v m => literalText v = .ok m.2) values ms ∧
      (ms.map Prod.fst).Nodup ∧
      (∀ before m after, ms = before ++ m :: after → MemberAfter (before.map Prod.fst) m) ∧
      ∀ more ms', members (values ++ more) = .ok ms' → ms <+: ms' := by
  constructor
  · intro h
    obtain ⟨texts, hTexts⟩ := exists_mapM_ok fun v hv => exists_literalText_ok (h v hv)
    exact ⟨_, members_eq_ok_iff.mpr ⟨texts, hTexts, rfl⟩⟩
  · intro ms h
    obtain ⟨texts, hTexts, rfl⟩ := members_eq_ok_iff.mp h
    obtain ⟨hOwn, hDistinct, hEach⟩ := membersFor_run texts
    refine ⟨?_, hDistinct, hEach, ?_⟩
    · have hPaired := mapM_eq_ok_iff.mp hTexts
      rwa [← hOwn, List.forall₂_map_right_iff] at hPaired
    · intro more ms' hMore
      obtain ⟨all, hAll, rfl⟩ := members_eq_ok_iff.mp hMore
      rw [List.mapM_append, hTexts, ok_bind] at hAll
      obtain ⟨others, -, hAll⟩ := exists_of_bind_ok hAll
      rw [← Except.ok.inj hAll, List.foldl_append]
      exact prefix_run _ others

/-- The number that tells `A` from `a` makes up the name of the third text, which gets one more. The first
three members stay when a fourth value comes. -/
theorem members_of_rivals :
    ∃ ms ms', members [.str "a", .str "A", .str "a-2"] = .ok ms ∧
      members [.str "a", .str "A", .str "a-2", .bool true] = .ok ms' ∧
      ms.map Prod.fst = ["A", "A_2", "A_2_2"] ∧ (ms.map Prod.fst).Nodup ∧ ms <+: ms' := by
  obtain ⟨-, hEach⟩ := members_of_literals [.str "a", .str "A", .str "a-2"]
  have hRivals : ∀ v ∈ [Value.str "a", .str "A", .str "a-2"] ++ [.bool true], IsJson v := by
    simp only [List.cons_append, List.nil_append, List.forall_mem_cons]
    exact ⟨.str _, .str _, .str _, .bool true, nofun⟩
  obtain ⟨ms, hms⟩ := (members_of_literals _).1 fun v hv =>
    hRivals v (List.mem_append_left [.bool true] hv)
  obtain ⟨ms', hms'⟩ := (members_of_literals _).1 hRivals
  obtain ⟨-, hDistinct, -, hMore⟩ := hEach ms hms
  have hNames : (members [.str "a", .str "A", .str "a-2"]).map (·.map Prod.fst) =
      .ok ["A", "A_2", "A_2_2"] := ok_of_toOption (by decide +kernel)
  rw [hms] at hNames
  exact ⟨ms, ms', hms, hms', Except.ok.inj hNames, hDistinct, hMore _ ms' hms'⟩

end ClientGen.Enumeration
