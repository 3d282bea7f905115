import ClientGen.Proofs.Document.Expansion

/-!
# References that expansion leaves

A reference that is still there after expansion was left in place for a reason: it
points to a component schema that is missing, or it is on a cycle. This holds of every
reference in the result, wherever it surfaces: a target that was expanded inside of
another one is remembered and used again elsewhere, together with the references that
were left in it.

The induction is on the rules of expansion, and what carries it is that only parts of
the document are expanded. Laying entries over others brings a reference in only if one
of the two had it, as siblings have lost theirs.

Main result:

* `leftover_of_expand` — what expansion leaves is missing or on a cycle.
-/

namespace ClientGen.Document

open ClientGen.Schema ClientGen.Document.Value

variable {document : Value}

-- ---------------------------------------------------------------------------
-- Values at a key of changed mappings
-- ---------------------------------------------------------------------------

/-- What is in a dictionary after putting was there or is what was put. -/
theorem mem_of_mem_put {d : Entries} {k v : Value} {e : Value × Value}
    (h : e ∈ Dictionary.put d k v) : e ∈ d ∨ e.2 = v ∧ ((e.1 == k) = true ∨ e.1 = k) := by
  induction d with
  | nil =>
    rw [Dictionary.put, List.mem_singleton] at h
    exact Or.inr ⟨by rw [h], Or.inr (by rw [h])⟩
  | cons f fs ih =>
    rw [Dictionary.put] at h
    split at h
    · rename_i hKey
      rcases List.mem_cons.mp h with rfl | h
      · exact Or.inr ⟨rfl, Or.inl hKey⟩
      · exact Or.inl (List.mem_cons_of_mem _ h)
    · rcases List.mem_cons.mp h with rfl | h
      · exact Or.inl List.mem_cons_self
      · exact (ih h).imp_left (List.mem_cons_of_mem _)

/-- An entry at a text key that is there after putting was there or was put at this key. -/
theorem mem_of_str_mem_put {d : Entries} {k v u : Value} {s : String}
    (h : (.str s, u) ∈ Dictionary.put d k v) : (.str s, u) ∈ d ∨ k = .str s ∧ u = v := by
  rcases mem_of_mem_put h with h | ⟨hValue, hKey | hKey⟩
  · exact Or.inl h
  · exact Or.inr ⟨str_beq.mp hKey, hValue⟩
  · exact Or.inr ⟨hKey.symm, hValue⟩

/-- Putting brings in what stands in the new value, and the value itself if the key is looked for. -/
theorem mem_valuesUnder_put {d : Entries} {k v u : Value} {key : String}
    (h : u ∈ valuesUnder key (.map (Dictionary.put d k v))) :
    u ∈ valuesUnder key (.map d) ∨ k = .str key ∧ u = v ∨ u ∈ valuesUnder key v := by
  obtain ⟨e, he, hu⟩ := mem_valuesUnder_map.mp h
  rcases hu with rfl | hu
  · rcases mem_of_str_mem_put he with he | hPut
    · exact Or.inl (mem_valuesUnder_map.mpr ⟨_, he, Or.inl rfl⟩)
    · exact Or.inr (Or.inl hPut)
  · rcases mem_of_mem_put he with he | ⟨hValue, -⟩
    · exact Or.inl (mem_valuesUnder_map.mpr ⟨e, he, Or.inr hu⟩)
    · exact Or.inr (Or.inr (hValue ▸ hu))

/-- What stands at a key after laying entries over others stood at it in one of them. -/
theorem mem_valuesUnder_overlay {d top : Entries} {u : Value} {key : String}
    (h : u ∈ valuesUnder key (.map (Dictionary.overlay d top))) :
    u ∈ valuesUnder key (.map d) ∨ u ∈ valuesUnder key (.map top) := by
  unfold Dictionary.overlay at h
  induction top generalizing d with
  | nil => exact Or.inl h
  | cons e es ih =>
    have hRest : valuesUnder key (.map es) ⊆ valuesUnder key (.map (e :: es)) := by
      intro u hu
      obtain ⟨f, hf, hu⟩ := mem_valuesUnder_map.mp hu
      exact mem_valuesUnder_map.mpr ⟨f, List.mem_cons_of_mem _ hf, hu⟩
    have hHead : ∀ u, e.1 = .str key ∧ u = e.2 ∨ u ∈ valuesUnder key e.2 →
        u ∈ valuesUnder key (.map (e :: es)) := by
      rintro u hu
      refine mem_valuesUnder_map.mpr ⟨e, List.mem_cons_self, hu.imp_left ?_⟩
      rintro ⟨hKey, rfl⟩
      exact Prod.ext hKey rfl
    rcases ih h with h | h
    · exact (mem_valuesUnder_put h).imp_right (hHead u)
    · exact Or.inr (hRest h)

theorem mem_valuesUnder_withSiblings {siblings : Entries} {v u : Value} {key : String}
    (h : u ∈ valuesUnder key (withSiblings siblings v)) :
    u ∈ valuesUnder key v ∨ u ∈ valuesUnder key (.map siblings) := by
  cases v with
  | map entries => exact mem_valuesUnder_overlay h
  | _ => exact Or.inl h

/-- The origin is put at a key of its own. -/
theorem mem_valuesUnder_withOrigin {ref : String} {v u : Value}
    (h : u ∈ valuesUnder refKey (withOrigin ref v)) : u ∈ valuesUnder refKey v := by
  cases v with
  | map entries =>
    rcases mem_valuesUnder_put h with h | ⟨hKey, -⟩ | h
    · exact h
    · exact absurd (Value.str.inj hKey) (by decide)
    · cases h
  | _ => exact h

-- ---------------------------------------------------------------------------
-- What is left
-- ---------------------------------------------------------------------------

/-- A reference of the document that may be left in place. -/
def Leftover (document u : Value) : Prop :=
  ∃ ref ∈ refsIn document, u = .str ref ∧ (MissingSchema document ref ∨ OnCycle document ref)

/-- Only leftovers stand at the key of references. -/
def LeavesOnly (document v : Value) : Prop := ∀ u ∈ v.valuesUnder refKey, Leftover document u

/-- Whatever stands at the key of references is a text. -/
def RefsAreTexts (document : Value) : Prop := ∀ u ∈ document.valuesUnder refKey, u.isText = true

/-- A part of the document that is a mapping but no reference has nothing at the key of references. -/
theorem RefsAreTexts.no_ref {entries : Entries} (h : RefsAreTexts document)
    (hWithin : Within (.map entries) document) (hPlain : openRef? (.map entries) = none) :
    ∀ e ∈ entries, e.1 ≠ .str refKey := by
  intro e he hKey
  -- the mapping has something at this key then, and this is a text
  have hHas : ∃ u, Dictionary.get? entries (.str refKey) = some u := by
    cases hGet : Dictionary.get? entries (.str refKey) with
    | some u => exact ⟨u, rfl⟩
    | none => exact absurd (beq_str.mpr hKey) (by simp [Dictionary.get?_eq_none_iff.mp hGet e he])
  obtain ⟨u, hGet⟩ := hHas
  obtain ⟨f, hf, hKeyF, rfl⟩ := Dictionary.exists_of_get? hGet
  have hText := h f.2 (hWithin.valuesUnder_subset
    (mem_valuesUnder_map.mpr ⟨f, hf, Or.inl (Prod.ext (beq_str.mp hKeyF) rfl)⟩))
  obtain ⟨ref, hRef⟩ : ∃ ref, f.2 = .str ref := by
    cases hValue : f.2 with
    | str ref => exact ⟨ref, rfl⟩
    | _ =>
      rw [hValue] at hText
      cases hText
  rw [openRef?_map.mpr (hGet.trans (congrArg some hRef))] at hPlain
  cases hPlain

theorem LeavesOnly.list {items : List Value} (h : ∀ v ∈ items, LeavesOnly document v) :
    LeavesOnly document (.list items) := by
  intro u hu
  obtain ⟨v, hv, hu⟩ := mem_valuesUnder_list.mp hu
  exact h v hv u hu

theorem LeavesOnly.map {entries : Entries} (hKeys : ∀ e ∈ entries, e.1 ≠ .str refKey)
    (h : ∀ e ∈ entries, LeavesOnly document e.2) : LeavesOnly document (.map entries) := by
  intro u hu
  obtain ⟨e, he, rfl | hu⟩ := mem_valuesUnder_map.mp hu
  · exact absurd rfl (hKeys _ he)
  · exact h e he u hu

/-- An expanded target and expanded siblings that are in order are so together. -/
theorem LeavesOnly.target {siblings : Entries} {v : Value} {ref : String}
    (h : LeavesOnly document v) (hSiblings : LeavesOnly document (.map siblings)) :
    LeavesOnly document (withSiblings siblings (withOrigin ref v)) := by
  intro u hu
  rcases mem_valuesUnder_withSiblings hu with hu | hu
  · exact h u (mem_valuesUnder_withOrigin hu)
  · exact hSiblings u hu

/-- A reference may stay if it is a leftover. -/
theorem LeavesOnly.openNode {siblings : Entries} {ref : String} (h : Leftover document (.str ref))
    (hSiblings : LeavesOnly document (.map siblings)) :
    LeavesOnly document (openNode ref siblings) := by
  intro u hu
  rcases mem_valuesUnder_overlay hu with hu | hu
  · obtain ⟨e, he, hu⟩ := mem_valuesUnder_map.mp hu
    obtain rfl := List.mem_singleton.mp he
    rcases hu with hu | hu
    · obtain rfl := (Prod.mk.inj hu).2
      exact h
    · cases hu
  · exact hSiblings u hu

theorem erase_no_ref {entries : Entries} :
    ∀ e ∈ Dictionary.erase entries (.str refKey), e.1 ≠ .str refKey := by
  intro e he hKey
  obtain ⟨-, hOther⟩ := List.mem_filter.mp he
  rw [beq_str.mpr hKey] at hOther
  cases hOther

mutual

/-- What the rules of expansion make of a part of the document has only leftovers in it. -/
theorem Expands.leavesOnly (hTexts : RefsAreTexts document) {inside : Option String} {place : String}
    {v w : Value} {o : Except Fault Value} :
    Expands document inside place v o → Within v document → o = .ok w → LeavesOnly document w
  | .scalar hList hMap, _, hOk => by
    cases hOk
    intro u hu
    cases w with
    | list items => exact absurd rfl (hList items)
    | map entries => exact absurd rfl (hMap entries)
    | _ => simp [valuesUnder] at hu
  | .list hItems, hWithin, hOk => by
    obtain ⟨items', hDone, rfl⟩ := exists_of_map_ok hOk
    exact .list (hItems.leavesOnly hTexts (fun _ => hWithin.of_item) hDone)
  | .map hPlain hEntries, hWithin, hOk => by
    obtain ⟨entries', hDone, rfl⟩ := exists_of_map_ok hOk
    exact hEntries.leavesOnly hTexts (hTexts.no_ref hWithin hPlain) (fun _ => hWithin.of_entry) hDone
  | .siblings _ _, _, hOk => by cases hOk
  | .target _ _ hSiblings hTarget h, hWithin, hOk => by
    obtain ⟨w', hDone, rfl⟩ := exists_of_map_ok hOk
    have hInside := h.leavesOnly hTexts (resolve_within hTarget) hDone
    exact hInside.target (hSiblings.leavesOnly hTexts erase_no_ref (fun _ => hWithin.of_sibling) rfl)
  | .leave hRef hSiblings hOpen, hWithin, hOk => by
    cases hOk
    have hMem := hWithin.refsIn_subset (openRef_mem_refsIn hRef)
    exact .openNode ⟨_, hMem, rfl, hOpen.imp_right Recurs.onCycle⟩
      (hSiblings.leavesOnly hTexts erase_no_ref (fun _ => hWithin.of_sibling) rfl)
  | .dangling _ _ _ _, _, hOk => by cases hOk

theorem ItemsExpand.leavesOnly (hTexts : RefsAreTexts document) {inside : Option String}
    {place : String} {index : Nat} {items items' : List Value} {o : Except Fault (List Value)} :
    ItemsExpand document inside place index items o → (∀ v ∈ items, Within v document) →
      o = .ok items' → ∀ w ∈ items', LeavesOnly document w
  | .nil, _, hOk => by
    cases hOk
    simp
  | .fail _, _, hOk => by cases hOk
  | .cons head rest, hWithin, hOk => by
    obtain ⟨ws, hDone, rfl⟩ := exists_of_map_ok hOk
    obtain ⟨hHead, hRest⟩ := List.forall_mem_cons.mp hWithin
    exact List.forall_mem_cons.mpr
      ⟨head.leavesOnly hTexts hHead rfl, rest.leavesOnly hTexts hRest hDone⟩

/-- Entries without a reference are expanded to a mapping with only leftovers in it. -/
theorem EntriesExpand.leavesOnly (hTexts : RefsAreTexts document) {inside : Option String}
    {place : String} {entries entries' : Entries} {o : Except Fault Entries} :
    EntriesExpand document inside place entries o → (∀ e ∈ entries, e.1 ≠ .str refKey) →
      (∀ e ∈ entries, Within e.2 document) → o = .ok entries' → LeavesOnly document (.map entries')
  | .nil, _, _, hOk => by
    cases hOk
    exact .map (by simp) (by simp)
  | .fail _, _, _, hOk => by cases hOk
  | .cons head rest, hKeys, hWithin, hOk => by
    obtain ⟨es', hDone, rfl⟩ := exists_of_map_ok hOk
    obtain ⟨hHeadKey, hRestKeys⟩ := List.forall_mem_cons.mp hKeys
    obtain ⟨hHead, hRest⟩ := List.forall_mem_cons.mp hWithin
    have hInside := rest.leavesOnly hTexts hRestKeys hRest hDone
    intro u hu
    obtain ⟨e, he, hu⟩ := mem_valuesUnder_map.mp hu
    rcases List.mem_cons.mp he with rfl | he
    · rcases hu with hu | hu
      · exact absurd (Prod.mk.inj hu).1 hHeadKey
      · exact head.leavesOnly hTexts hHead rfl u hu
    · exact hInside u (mem_valuesUnder_map.mpr ⟨e, he, hu⟩)

end

/-- **What expansion leaves.** Where all references are texts, every reference in an expanded
document is one of the document that points to a missing component schema or is on a cycle.
If there are neither, no reference is left. -/
theorem leftover_of_expand {expanded : Value} (hTexts : RefsAreTexts document)
    (h : (expand document).outcome = .ok expanded) :
    (∀ u ∈ expanded.valuesUnder refKey, Leftover document u) ∧
      (Acyclic document → (∀ ref ∈ refsIn document, ¬ MissingSchema document ref) →
        expanded.valuesUnder refKey = []) := by
  have hLeaves : LeavesOnly document expanded :=
    (expand_follows document).leavesOnly hTexts (.refl document) h
  refine ⟨hLeaves, ?_⟩
  intro hAcyclic hPresent
  rw [List.eq_nil_iff_forall_not_mem]
  intro u hu
  obtain ⟨ref, hMem, -, hMissing | hCycle⟩ := hLeaves u hu
  · exact hPresent ref hMem hMissing
  · exact hAcyclic ref hCycle

/-- A schema that holds itself and one that is missing. -/
def growingTree : Value :=
  .map [(.str "components", .map [(.str "schemas", .map [(.str "Node", .map [
    (.str "child", .map [(.str "$ref", .str "#/components/schemas/Node"), (.str "title", .str "Child")]),
    (.str "leaf", .map [(.str "$ref", .str "#/components/schemas/Leaf")])])])])]

theorem leftover_growingTree :
    RefsAreTexts growingTree ∧ ∃ expanded, (expand growingTree).outcome = .ok expanded ∧
      ∀ u ∈ expanded.valuesUnder refKey, Leftover growingTree u := by
  have hTexts : RefsAreTexts growingTree := by
    unfold RefsAreTexts
    decide +kernel
  obtain ⟨expanded, hExpanded⟩ : ∃ expanded, (expand growingTree).outcome = .ok expanded := by
    refine exists_expand_ok ?_
    rintro ref hMem ⟨hOther, -⟩
    revert ref
    decide +kernel
  exact ⟨hTexts, expanded, hExpanded, (leftover_of_expand hTexts hExpanded).1⟩

end ClientGen.Document
