import ClientGen.Enumeration.Signature
import ClientGen.Proofs.Outcome
import ClientGen.Proofs.Sorting

/-!
# Signatures forget order and repetition

The signature of a list of values is made from the sorted texts of the values,
each of them once. Lists with the same members therefore have the same signature,
and if one of them has none because a value cannot be written, neither has the other.

Main results:

* `signature_eq_of_same_texts` — lists whose values are written the same have the
  same signature.
* `signature_of_same_members` — lists with the same members can both be signed or
  neither can.
-/

namespace ClientGen.Enumeration

open ClientGen.Document

/-- The two lists hold the same values, as they are written. -/
def SameTexts (vs ws : List Value) : Prop :=
  ∀ text, (∃ v ∈ vs, canonicalText v = .ok text) ↔ ∃ w ∈ ws, canonicalText w = .ok text

theorem sameTexts_of_mem_iff {vs ws : List Value} (h : ∀ v, v ∈ vs ↔ v ∈ ws) : SameTexts vs ws := by
  intro text
  simp only [h]

/-- The texts of values are the texts that one of them is written as. -/
theorem mem_texts_iff {vs : List Value} {texts : List String} (h : vs.mapM canonicalText = .ok texts)
    {text : String} : text ∈ texts ↔ ∃ v ∈ vs, canonicalText v = .ok text := by
  constructor
  · exact exists_of_mem_mapM h text
  · rintro ⟨v, hv, hText⟩
    obtain ⟨text', hMem, hText'⟩ := exists_of_mapM_ok h v hv
    rw [hText] at hText'
    cases hText'
    exact hMem

/-- The signature forgets the order and the repetition of the values. -/
theorem signature_eq_of_same_texts {vs ws : List Value} {s t : String} (hSame : SameTexts vs ws)
    (hs : signature vs = .ok s) (ht : signature ws = .ok t) : s = t := by
  obtain ⟨texts, hTexts, hs⟩ := exists_of_bind_ok hs
  obtain ⟨texts', hTexts', ht⟩ := exists_of_bind_ok ht
  cases hs
  cases ht
  have hSorted : texts.eraseDups.mergeSort (· ≤ ·) = texts'.eraseDups.mergeSort (· ≤ ·) := by
    refine eraseDups_mergeSort_eq string_linear (fun _ _ => trivial) ?_
    intro text
    rw [mem_texts_iff hTexts, mem_texts_iff hTexts']
    exact hSame text
  rw [hSorted]

/-- With one list every other one with the same members is signed, by the same signature. -/
theorem signature_of_same_members {vs ws : List Value} {s : String} (h : ∀ v, v ∈ vs ↔ v ∈ ws)
    (hs : signature vs = .ok s) : signature ws = .ok s := by
  have hSigned : ∃ t, signature ws = .ok t := by
    obtain ⟨texts, hTexts, -⟩ := exists_of_bind_ok hs
    have hEach : ∀ w ∈ ws, ∃ text, canonicalText w = .ok text := by
      intro w hw
      obtain ⟨text, -, hText⟩ := exists_of_mapM_ok hTexts w ((h w).mpr hw)
      exact ⟨text, hText⟩
    obtain ⟨texts', hTexts'⟩ := exists_mapM_ok hEach
    unfold signature
    rw [hTexts', ok_bind]
    exact ⟨_, rfl⟩
  obtain ⟨t, ht⟩ := hSigned
  rw [ht, signature_eq_of_same_texts (sameTexts_of_mem_iff h) hs ht]

end ClientGen.Enumeration
