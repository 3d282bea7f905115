import ClientGen.Document.Access
import ClientGen.Success

/-!
# Depth of parts

A part of a value is less deep than the value, and what is gone through or contributed is no deeper.
Recursions into schemas end because of this.
-/

namespace ClientGen.Document.Value

theorem depth_le_itemsDepth {v : Value} {items : List Value} (h : v ∈ items) :
    v.depth ≤ itemsDepth items := by
  induction items with
  | nil => simp at h
  | cons w ws ih =>
    rcases List.mem_cons.mp h with rfl | h
    · simp only [itemsDepth]
      omega
    · have := ih h
      simp only [itemsDepth]
      omega

theorem depth_le_entriesDepth {e : Value × Value} {entries : List (Value × Value)} (h : e ∈ entries) :
    e.1.depth ≤ entriesDepth entries ∧ e.2.depth ≤ entriesDepth entries := by
  induction entries with
  | nil => simp at h
  | cons f fs ih =>
    rcases List.mem_cons.mp h with rfl | h
    · simp only [entriesDepth]
      omega
    · have := ih h
      simp only [entriesDepth]
      omega

theorem mem_of_get? {entries : Entries} {k v : Value} (h : Dictionary.get? entries k = some v) :
    ∃ k', (k', v) ∈ entries := by
  induction entries with
  | nil => simp [Dictionary.get?] at h
  | cons e es ih =>
    simp only [Dictionary.get?] at h
    split at h
    · cases h
      exact ⟨_, List.mem_cons_self⟩
    · obtain ⟨k', hk⟩ := ih h
      exact ⟨k', List.mem_cons_of_mem _ hk⟩

theorem get?_depth {entries : Entries} {k v : Value} (h : Dictionary.get? entries k = some v) :
    v.depth ≤ entriesDepth entries := by
  obtain ⟨_, hk⟩ := mem_of_get? h
  exact (depth_le_entriesDepth hk).2

/-- A member is less deep than its mapping. -/
theorem field?_depth {v w : Value} {name : String} (h : v.field? name = some w) : w.depth < v.depth := by
  cases v with
  | map entries =>
    have := get?_depth h
    simp only [depth]
    omega
  | _ => simp [field?] at h

/-- What a value is gone through by is no deeper than the value. -/
theorem elements_depth {v : Value} {xs : List Value} (h : v.elements = .ok xs) :
    ∀ x ∈ xs, x.depth ≤ v.depth := by
  intro x hx
  cases v with
  | list items =>
    cases h
    have := depth_le_itemsDepth hx
    simp only [depth]
    omega
  | set items =>
    cases h
    have := depth_le_itemsDepth hx
    simp only [depth]
    omega
  | map entries =>
    cases h
    obtain ⟨e, he, rfl⟩ := List.mem_map.mp hx
    have := (depth_le_entriesDepth he).1
    simp only [depth]
    omega
  | str s =>
    cases h
    obtain ⟨c, _, rfl⟩ := List.mem_map.mp hx
    simp [depth]
  | bytes bs =>
    cases h
    obtain ⟨c, _, rfl⟩ := List.mem_map.mp hx
    simp [depth]
  | _ => simp [elements, misused] at h

theorem asEntry_depth {v : Value} {e : Value × Value} (h : v.asEntry = .ok e) :
    e.2.depth ≤ v.depth := by
  unfold asEntry at h
  obtain ⟨items, hv, h⟩ := exists_of_bind_ok h
  have small := elements_depth hv
  -- Only two items make an entry, and the second of them is its value.
  split at h
  · split at h
    · cases h
      exact small _ (by simp)
    · simp [misused] at h
  · simp [misused] at h

/-- The values that a value contributes to a mapping are no deeper than the value. -/
theorem contribution_depth {v : Value} {es : Entries} (h : v.contribution = .ok es) :
    ∀ e ∈ es, e.2.depth ≤ v.depth := by
  intro e he
  unfold contribution at h
  split at h
  · cases h
    have := (depth_le_entriesDepth he).2
    simp only [depth]
    omega
  · obtain ⟨items, hv, h⟩ := exists_of_bind_ok h
    obtain ⟨x, hx, hxe⟩ := exists_of_mem_mapM h e he
    exact Nat.le_trans (asEntry_depth hxe) (elements_depth hv x hx)

theorem mem_put {d : Entries} {k v : Value} {e : Value × Value} (h : e ∈ Dictionary.put d k v) :
    e ∈ d ∨ e.2 = v := by
  induction d with
  | nil =>
    simp only [Dictionary.put, List.mem_singleton] at h
    exact .inr (by rw [h])
  | cons f fs ih =>
    simp only [Dictionary.put] at h
    split at h
    · rcases List.mem_cons.mp h with rfl | h
      · exact .inr rfl
      · exact .inl (List.mem_cons_of_mem _ h)
    · rcases List.mem_cons.mp h with rfl | h
      · exact .inl List.mem_cons_self
      · rcases ih h with h | h
        · exact .inl (List.mem_cons_of_mem _ h)
        · exact .inr h

/-- The values of an overlay come from one of the two dictionaries. -/
theorem mem_overlay {d top : Entries} {e : Value × Value} (h : e ∈ Dictionary.overlay d top) :
    e ∈ d ∨ ∃ f ∈ top, e.2 = f.2 := by
  unfold Dictionary.overlay at h
  induction top generalizing d with
  | nil => exact .inl h
  | cons f fs ih =>
    rcases ih h with h | ⟨g, hg, h⟩
    · rcases mem_put h with h | h
      · exact .inl h
      · exact .inr ⟨f, List.mem_cons_self, h⟩
    · exact .inr ⟨g, List.mem_cons_of_mem _ hg, h⟩

end ClientGen.Document.Value
