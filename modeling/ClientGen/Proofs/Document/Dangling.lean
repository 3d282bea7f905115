import ClientGen.Proofs.Document.Expansion

/-!
# When expansion fails

Expansion has one way to fail: somewhere in the document a reference that does not
point to a component schema leads nowhere. Where it stands does not matter, as long as
it stands in the document: expansion visits the siblings of other references, the
components that nobody uses and the targets on a cycle, and a target that is remembered
from an earlier visit was expanded without a fault.

What leading nowhere means is said here along the keys of the pointer: the way ends at
a mapping without the next key, or at a value that is no mapping while there are keys
left.

Main result:

* `expand_unresolved_iff` — expansion fails just where a reference leads nowhere.
-/

namespace ClientGen.Document

open ClientGen.Schema

variable {document : Value}

-- ---------------------------------------------------------------------------
-- Ways that break off
-- ---------------------------------------------------------------------------

/-- On the way from a value along the keys, there is a key that leads nowhere. -/
inductive BreaksOff : Value → List String → Prop
  /-- lists and scalars have no members -/
  | noMapping {v : Value} {key : String} {keys : List String} (hOther : v.isMapping = false) :
      BreaksOff v (key :: keys)
  | missing {entries : Entries} {key : String} {keys : List String}
      (hMember : Dictionary.get? entries (.str key) = none) : BreaksOff (.map entries) (key :: keys)
  | step {entries : Entries} {key : String} {keys : List String} {v : Value}
      (hMember : Dictionary.get? entries (.str key) = some v) (h : BreaksOff v keys) :
      BreaksOff (.map entries) (key :: keys)

/-- The reference is no pointer into the document, or the way along its keys breaks off. -/
def LeadsNowhere (document : Value) (ref : String) : Prop :=
  ref.startsWith "#/" = false ∨
    ∃ keys, Pointer.keys? ref = some keys ∧ BreaksOff document keys

/-- Keys lead somewhere unless the way breaks off. -/
theorem follow?_eq_none_iff {v : Value} {keys : List String} :
    Pointer.follow? v keys = none ↔ BreaksOff v keys := by
  constructor
  · intro h
    induction keys generalizing v with
    | nil => cases h
    | cons key keys ih =>
      rw [Pointer.follow?] at h
      cases v with
      | map entries =>
        cases hMember : Dictionary.get? entries (.str key) with
        | none => exact .missing hMember
        | some w =>
          rw [Value.field?, hMember] at h
          exact .step hMember (ih h)
      | _ => exact .noMapping rfl
  · intro h
    induction h with
    | noMapping hOther =>
      rename_i v _ _
      cases v with
      | map entries => cases hOther
      | _ => rfl
    | missing hMember =>
      rw [Pointer.follow?, Value.field?, hMember]
      rfl
    | step hMember _ ih =>
      rw [Pointer.follow?, Value.field?, hMember]
      exact ih

/-- A reference has keys if it is a pointer into the same document. -/
theorem keys?_eq_none_iff {ref : String} :
    Pointer.keys? ref = none ↔ ref.startsWith "#/" = false := by
  rw [← Bool.not_eq_true, String.startsWith_string_iff, Pointer.keys?]
  split
  · rename_i rest hPointer
    simp [hPointer]
  · rename_i hOther
    simp only [true_iff]
    rintro ⟨rest, hPointer⟩
    exact hOther rest hPointer.symm

theorem resolve_error_iff {ref : String} :
    (∃ fault, resolve document ref = .error fault) ↔ LeadsNowhere document ref := by
  unfold resolve LeadsNowhere
  rw [← keys?_eq_none_iff]
  cases Pointer.keys? ref with
  | none => simp
  | some keys =>
    cases hFollow : Pointer.follow? document keys with
    | none => simpa [hFollow] using follow?_eq_none_iff.mp hFollow
    | some target =>
      have hReaches : ¬ BreaksOff document keys := by
        rw [← follow?_eq_none_iff, hFollow]
        exact Option.some_ne_none _
      simpa [hFollow] using hReaches

-- ---------------------------------------------------------------------------
-- Mappings with a reference
-- ---------------------------------------------------------------------------

/-- The references of a value are the texts at the reference keys of the mappings inside. -/
theorem mem_refsIn_iff {ref : String} {v : Value} :
    ref ∈ refsIn v ↔ ∃ entries, Within (.map entries) v ∧
      Dictionary.get? entries (.str refKey) = some (.str ref) := by
  constructor
  · intro h
    match v with
    | .list items =>
      rw [refsIn, mem_refsInItems] at h
      obtain ⟨w, hw, h⟩ := h
      obtain ⟨entries, hWithin, hRef⟩ := mem_refsIn_iff.mp h
      exact ⟨entries, .item hw hWithin, hRef⟩
    | .map entries =>
      obtain hOwn | ⟨e, he, h⟩ := mem_refsIn_map.mp h
      · exact ⟨entries, .refl _, openRef?_map.mp hOwn⟩
      · obtain ⟨entries', hWithin, hRef⟩ := mem_refsIn_iff.mp h
        exact ⟨entries', .entry he hWithin, hRef⟩
    | .null | .bool _ | .int _ | .float _ | .str _ | .date _ | .moment _ | .bytes _ | .set _ =>
      simp [refsIn] at h
  · rintro ⟨entries, hWithin, hRef⟩
    exact hWithin.refsIn_subset (mem_refsIn_map.mpr (Or.inl (openRef?_map.mpr hRef)))
termination_by v.depth
decreasing_by
  · have := Value.depth_le_itemsDepth hw
    simp only [Value.depth]
    omega
  · have := Value.depth_le_entriesDepth he
    simp only [Value.depth]
    omega

/-- Somewhere in the document a mapping holds the reference, which does not point to a component
schema and leads nowhere. -/
def HoldsDangling (document : Value) (ref : String) : Prop :=
  ∃ entries, Within (.map entries) document ∧
    Dictionary.get? entries (.str refKey) = some (.str ref) ∧
    ref.startsWith schemaPointer = false ∧ LeadsNowhere document ref

theorem holdsDangling_iff {ref : String} :
    HoldsDangling document ref ↔ ref ∈ refsIn document ∧ Dangling document ref := by
  rw [mem_refsIn_iff, Dangling, resolve_error_iff]
  constructor
  · rintro ⟨entries, hWithin, hRef, hDangling⟩
    exact ⟨⟨entries, hWithin, hRef⟩, hDangling⟩
  · rintro ⟨⟨entries, hWithin, hRef⟩, hDangling⟩
    exact ⟨entries, hWithin, hRef, hDangling⟩

-- ---------------------------------------------------------------------------
-- Failing
-- ---------------------------------------------------------------------------

/-- **When expansion fails.** Whatever its references are and however they lead to each other, a
document cannot be expanded if and only if one of its mappings holds a reference that does not
point to a component schema and leads nowhere. The fault names such a reference, and there are
no other faults. -/
theorem expand_unresolved_iff (hKeyed : document.wellKeyed = true) :
    ((∃ ref place, (expand document).outcome = .error (.unresolved ref place)) ↔
        ∃ ref, HoldsDangling document ref) ∧
      (∀ ref place, (expand document).outcome = .error (.unresolved ref place) →
        HoldsDangling document ref) ∧
      ((¬ ∃ ref, HoldsDangling document ref) →
        ∃ expanded, (expand document).outcome = .ok expanded) := by
  have hNames : ∀ fault, (expand document).outcome = .error fault →
      ∃ ref place, fault = .unresolved ref place ∧ HoldsDangling document ref := by
    intro fault hFault
    obtain ⟨ref, hMem, place, hSame, hDangling⟩ :=
      (expand_follows document).namesDangling (.refl document) hFault
    exact ⟨ref, place, hSame, holdsDangling_iff.mpr ⟨hMem, hDangling⟩⟩
  refine ⟨⟨?_, ?_⟩, ?_, ?_⟩
  · rintro ⟨ref, place, hFault⟩
    obtain ⟨ref', -, -, hHolds⟩ := hNames _ hFault
    exact ⟨ref', hHolds⟩
  · rintro ⟨ref, hHolds⟩
    obtain ⟨hMem, hDangling⟩ := holdsDangling_iff.mp hHolds
    cases hOutcome : (expand document).outcome with
    | ok expanded =>
      exact absurd hDangling ((exists_expand_ok_iff hKeyed).mp ⟨expanded, hOutcome⟩ ref hMem)
    | error fault =>
      obtain ⟨ref', place, rfl, -⟩ := hNames fault hOutcome
      exact ⟨ref', place, rfl⟩
  · intro ref place hFault
    obtain ⟨ref', place', hSame, hHolds⟩ := hNames _ hFault
    cases hSame
    exact hHolds
  · intro hNone
    refine (exists_expand_ok_iff hKeyed).mpr fun ref hMem hDangling => hNone ⟨ref, ?_⟩
    exact holdsDangling_iff.mpr ⟨hMem, hDangling⟩

/-- A schema that holds itself, and one that nobody uses: it is a reference to a missing schema,
and among its siblings is a reference into a list. -/
def unusedComponent : Value :=
  .map [(.str "tags", .list [.str "pets"]),
    (.str "components", .map [(.str "schemas", .map [
      (.str "Node", .map [(.str "child", .map [(.str "$ref", .str "#/components/schemas/Node")])]),
      (.str "Unused", .map [(.str "$ref", .str "#/components/schemas/Gone"),
        (.str "note", .map [(.str "$ref", .str "#/tags/0")])])])])]

theorem expand_unusedComponent :
    unusedComponent.wellKeyed = true ∧
      ∃ ref place, (expand unusedComponent).outcome = .error (.unresolved ref place) := by
  have hKeyed : unusedComponent.wellKeyed = true := by decide +kernel
  have hHolds : HoldsDangling unusedComponent "#/tags/0" := by
    -- the way ends at the list of tags
    have hBreaks : BreaksOff unusedComponent ["tags", "0"] := by
      refine .step (v := .list [.str "pets"]) ?_ (.noMapping rfl)
      cbv
    have hNowhere : LeadsNowhere unusedComponent "#/tags/0" :=
      Or.inr ⟨["tags", "0"], by decide +kernel, hBreaks⟩
    exact holdsDangling_iff.mpr
      ⟨by decide +kernel, by decide +kernel, resolve_error_iff.mpr hNowhere⟩
  exact ⟨hKeyed, (expand_unresolved_iff hKeyed).1.mpr ⟨_, hHolds⟩⟩

end ClientGen.Document
