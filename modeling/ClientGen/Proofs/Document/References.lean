import ClientGen.Document.Expand
import ClientGen.Proofs.Document.Keys
import Mathlib.Logic.Relation

/-!
# The reference graph of a document

A reference leads to another one if that occurs inside its target, and it is on a
cycle if it leads back to itself in one or more steps. Everything that expansion
meets is part of the document, because targets are: so what is asked of the
references of a document holds of those that are met on the way.

Main results:

* `resolve_within` — targets are parts of the document.
* `Within.refsIn_subset` / `Within.valuesUnder_subset` — parts hold no other
  references and no other values at a key.
* `acyclic_of_rank` — a document is free of cycles if references lead down in rank.
-/

namespace ClientGen.Document

open ClientGen.Schema

-- ---------------------------------------------------------------------------
-- Parts
-- ---------------------------------------------------------------------------

/-- The first value is the second one or stands somewhere in its lists and mappings. -/
inductive Within : Value → Value → Prop
  | refl (v : Value) : Within v v
  | item {w v : Value} {items : List Value} (hMem : v ∈ items) (h : Within w v) :
      Within w (.list items)
  | entry {w : Value} {e : Value × Value} {entries : Entries} (hMem : e ∈ entries)
      (h : Within w e.2) :
      Within w (.map entries)

namespace Within

theorem trans {u v w : Value} (h : Within u v) (h' : Within v w) : Within u w := by
  induction h' with
  | refl => exact h
  | item hMem _ ih => exact .item hMem ih
  | entry hMem _ ih => exact .entry hMem ih

theorem of_item {v : Value} {items : List Value} {w : Value} (h : Within (.list items) w)
    (hMem : v ∈ items) : Within v w :=
  trans (.item hMem (.refl v)) h

theorem of_entry {e : Value × Value} {entries : Entries} {w : Value} (h : Within (.map entries) w)
    (hMem : e ∈ entries) : Within e.2 w :=
  trans (.entry hMem (.refl e.2)) h

/-- What is left of a mapping without one of its keys is inside it as well. -/
theorem of_sibling {e : Value × Value} {entries : Entries} {k w : Value}
    (h : Within (.map entries) w) (hMem : e ∈ Dictionary.erase entries k) : Within e.2 w :=
  h.of_entry (List.mem_of_mem_filter hMem)

end Within

theorem follow?_within {v w : Value} {keys : List String} (h : Pointer.follow? v keys = some w) :
    Within w v := by
  induction keys generalizing v with
  | nil =>
    cases h
    exact .refl _
  | cons key keys ih =>
    rw [Pointer.follow?, Option.bind_eq_some_iff] at h
    obtain ⟨member, hMember, h⟩ := h
    cases v with
    | map entries =>
      obtain ⟨e, he, -, rfl⟩ := Dictionary.exists_of_get? hMember
      exact .entry he (ih h)
    | _ => cases hMember

/-- The targets of references are parts of the document. -/
theorem resolve_within {document target : Value} {ref : String}
    (h : resolve document ref = .ok target) : Within target document := by
  unfold resolve at h
  split at h
  · cases h
  · split at h
    · rename_i hFollow
      cases h
      exact follow?_within hFollow
    · cases h

/-- Parts of a well keyed value are well keyed. -/
theorem Within.wellKeyed {v w : Value} (h : Within v w) (hw : w.wellKeyed = true) :
    v.wellKeyed = true := by
  induction h with
  | refl => exact hw
  | item hMem _ ih => exact ih (Value.wellKeyed_list.mp hw _ hMem)
  | entry hMem _ ih => exact ih ((Value.wellKeyed_map.mp hw).2 _ hMem).2

-- ---------------------------------------------------------------------------
-- References in parts
-- ---------------------------------------------------------------------------

theorem mem_refsInItems {ref : String} {items : List Value} :
    ref ∈ refsInItems items ↔ ∃ v ∈ items, ref ∈ refsIn v := by
  induction items with
  | nil => simp [refsInItems]
  | cons v vs ih => simp [refsInItems, ih]

theorem mem_refsInEntries {ref : String} {entries : Entries} :
    ref ∈ refsInEntries entries ↔ ∃ e ∈ entries, ref ∈ refsIn e.2 := by
  induction entries with
  | nil => simp [refsInEntries]
  | cons e es ih =>
    obtain ⟨k, v⟩ := e
    simp [refsInEntries, ih]

/-- A mapping is the reference that its pointer names, if that is a text. -/
theorem openRef?_map {ref : String} {entries : Entries} :
    openRef? (.map entries) = some ref ↔
      Dictionary.get? entries (.str refKey) = some (.str ref) := by
  rw [openRef?, Value.field?]
  cases Dictionary.get? entries (.str refKey) with
  | none => simp
  | some v => cases v <;> simp

/-- The reference that a mapping is and those inside of it are its references. -/
theorem mem_refsIn_map {ref : String} {entries : Entries} :
    ref ∈ refsIn (.map entries) ↔
      openRef? (.map entries) = some ref ∨ ∃ e ∈ entries, ref ∈ refsIn e.2 := by
  rw [refsIn, List.mem_append, mem_refsInEntries, openRef?_map]
  refine or_congr ?_ Iff.rfl
  cases Dictionary.get? entries (.str refKey) with
  | none => simp
  | some v => cases v <;> simp [eq_comm]

theorem Within.refsIn_subset {w v : Value} (h : Within w v) : refsIn w ⊆ refsIn v := by
  induction h with
  | refl => exact fun _ h => h
  | item hMem _ ih =>
    intro ref hRef
    rw [refsIn, mem_refsInItems]
    exact ⟨_, hMem, ih hRef⟩
  | entry hMem _ ih =>
    intro ref hRef
    rw [mem_refsIn_map]
    exact Or.inr ⟨_, hMem, ih hRef⟩

namespace Value

mutual

/-- The values at a key, in whatever mapping inside the value it stands. -/
def valuesUnder (key : String) : Value → List Value
  | .list items => itemsUnder key items
  | .map entries => entriesUnder key entries
  | _ => []

/-- The values at a key inside items. -/
def itemsUnder (key : String) : List Value → List Value
  | [] => []
  | v :: vs => valuesUnder key v ++ itemsUnder key vs

/-- The values at a key among entries and inside their values. -/
def entriesUnder (key : String) : List (Value × Value) → List Value
  | [] => []
  | (k, v) :: es => (if k.isStr key then [v] else []) ++ valuesUnder key v ++ entriesUnder key es

end

theorem isStr_iff {v : Value} {s : String} : v.isStr s = true ↔ v = .str s := by
  cases v <;> simp [isStr]

theorem mem_valuesUnder_list {key : String} {u : Value} {items : List Value} :
    u ∈ valuesUnder key (.list items) ↔ ∃ v ∈ items, u ∈ valuesUnder key v := by
  rw [valuesUnder]
  induction items with
  | nil => simp [itemsUnder]
  | cons v vs ih => simp [itemsUnder, ih]

theorem mem_valuesUnder_map {key : String} {u : Value} {entries : Entries} :
    u ∈ valuesUnder key (.map entries) ↔
      ∃ e ∈ entries, e = (.str key, u) ∨ u ∈ valuesUnder key e.2 := by
  rw [valuesUnder]
  induction entries with
  | nil => simp [entriesUnder]
  | cons e es ih =>
    obtain ⟨k, v⟩ := e
    have hHead : u ∈ (if k.isStr key then [v] else []) ↔ (k, v) = (.str key, u) := by
      split
      · rename_i hKey
        simp [isStr_iff.mp hKey, eq_comm]
      · rename_i hKey
        rw [isStr_iff] at hKey
        simp [hKey]
    rw [entriesUnder, List.mem_append, List.mem_append, hHead, ih]
    simp

end Value

theorem Within.valuesUnder_subset {key : String} {w v : Value} (h : Within w v) :
    w.valuesUnder key ⊆ v.valuesUnder key := by
  induction h with
  | refl => exact fun _ h => h
  | item hMem _ ih =>
    intro u hu
    exact Value.mem_valuesUnder_list.mpr ⟨_, hMem, ih hu⟩
  | entry hMem _ ih =>
    intro u hu
    exact Value.mem_valuesUnder_map.mpr ⟨_, hMem, Or.inr (ih hu)⟩

/-- Where a value has nothing at a key, no mapping inside has the key. -/
theorem Within.get?_eq_none {key : String} {entries : Entries} {v : Value}
    (h : Within (.map entries) v) (hNone : v.valuesUnder key = []) :
    Dictionary.get? entries (.str key) = none := by
  cases hGet : Dictionary.get? entries (.str key) with
  | none => rfl
  | some u =>
    obtain ⟨e, he, hSame, -⟩ := Dictionary.exists_of_get? hGet
    have hUnder : e.2 ∈ v.valuesUnder key := h.valuesUnder_subset
      (Value.mem_valuesUnder_map.mpr ⟨e, he, Or.inl (Prod.ext (Value.beq_str.mp hSame) rfl)⟩)
    rw [hNone] at hUnder
    cases hUnder

theorem Within.field?_eq_none {key : String} {w v : Value} (h : Within w v)
    (hNone : v.valuesUnder key = []) : w.field? key = none := by
  cases w with
  | map entries => exact h.get?_eq_none hNone
  | _ => rfl

-- ---------------------------------------------------------------------------
-- The graph
-- ---------------------------------------------------------------------------

/-- The references inside the target of a reference. -/
def refsFrom (document : Value) (ref : String) : List String :=
  match resolve document ref with
  | .ok target => refsIn target
  | .error _ => []

/-- The target of the first reference holds the second. -/
def Refers (document : Value) (ref ref' : String) : Prop := ref' ∈ refsFrom document ref

/-- The reference leads back to itself. -/
def OnCycle (document : Value) (ref : String) : Prop :=
  Relation.TransGen (Refers document) ref ref

/-- No reference leads back to itself. -/
def Acyclic (document : Value) : Prop := ∀ ref, ¬ OnCycle document ref

/-- The reference points to a component schema that is not there. -/
def MissingSchema (document : Value) (ref : String) : Prop :=
  ref.startsWith schemaPointer = true ∧ ∃ fault, resolve document ref = .error fault

theorem refers_of_mem {document target : Value} {ref ref' : String}
    (hTarget : resolve document ref = .ok target) (h : ref' ∈ refsIn target) :
    Refers document ref ref' := by
  rw [Refers, refsFrom, hTarget]
  exact h

theorem Refers.mem_refsIn {document : Value} {ref ref' : String} (h : Refers document ref ref') :
    ref' ∈ refsIn document := by
  rw [Refers, refsFrom] at h
  split at h
  · rename_i hTarget
    exact (resolve_within hTarget).refsIn_subset h
  · simp at h

/-- A reference on a cycle occurs in the document. -/
theorem OnCycle.mem_refsIn {document : Value} {ref : String} (h : OnCycle document ref) :
    ref ∈ refsIn document := by
  obtain ⟨_, -, hLast⟩ := Relation.TransGen.tail'_iff.mp h
  exact hLast.mem_refsIn

/-- A reference on a cycle has a target. -/
theorem OnCycle.resolves {document : Value} {ref : String} (h : OnCycle document ref) :
    ∃ target, resolve document ref = .ok target := by
  obtain ⟨_, hFirst, -⟩ := Relation.TransGen.head'_iff.mp h
  rw [Refers, refsFrom] at hFirst
  split at hFirst
  · exact ⟨_, ‹_›⟩
  · cases hFirst

/-- The reference is on a cycle with the one whose target it is in. -/
def Recurs (document : Value) (inside : Option String) (ref : String) : Prop :=
  ∃ outer, inside = some outer ∧ Refers document outer ref ∧
    Relation.ReflTransGen (Refers document) ref outer

theorem Recurs.onCycle {document : Value} {inside : Option String} {ref : String}
    (h : Recurs document inside ref) : OnCycle document ref := by
  obtain ⟨outer, -, hStep, hBack⟩ := h
  exact .tail' hBack hStep

/-- No two references lead to each other: on a cycle there is one reference only. -/
def LoopsOnly (document : Value) : Prop :=
  ∀ ref ref', Relation.TransGen (Refers document) ref ref' →
    Relation.TransGen (Refers document) ref' ref → ref = ref'

/-- Where cycles have one reference each, a reference meets itself in its own target only. -/
theorem LoopsOnly.eq_of_recurs {document : Value} {inside : Option String} {ref : String}
    (h : LoopsOnly document) (hRecurs : Recurs document inside ref) : inside = some ref := by
  obtain ⟨outer, rfl, hStep, hBack⟩ := hRecurs
  rcases Relation.reflTransGen_iff_eq_or_transGen.mp hBack with rfl | hBack
  · rfl
  · rw [h outer ref (.single hStep) hBack]

/-- What holds of each step and is transitive holds of each path. -/
theorem holds_of_path {document : Value} {P : String → String → Prop}
    (hTrans : ∀ {a b c}, P a b → P b c → P a c)
    (hStep : ∀ ref ∈ refsIn document, ∀ ref' ∈ refsFrom document ref, P ref ref')
    {ref ref' : String} (hRef : ref ∈ refsIn document)
    (hPath : Relation.TransGen (Refers document) ref ref') : P ref ref' := by
  induction hPath with
  | single hFirst => exact hStep _ hRef _ hFirst
  | tail hPath hLast ih =>
    obtain ⟨_, -, hBefore⟩ := Relation.TransGen.tail'_iff.mp hPath
    exact hTrans ih (hStep _ hBefore.mem_refsIn _ hLast)

/-- Where a rank falls from each reference to those inside its target, there is no cycle. -/
theorem acyclic_of_rank {document : Value} (rank : String → Nat)
    (h : ∀ ref ∈ refsIn document, ∀ ref' ∈ refsFrom document ref, rank ref' < rank ref) :
    Acyclic document := by
  intro ref hCycle
  have hDown : rank ref < rank ref :=
    holds_of_path (P := fun a b => rank b < rank a) (fun hab hbc => Nat.lt_trans hbc hab) h
      hCycle.mem_refsIn hCycle
  exact Nat.lt_irrefl _ hDown

/-- Where it falls or the reference is the same, there are no longer cycles. -/
theorem loopsOnly_of_rank {document : Value} (rank : String → Nat)
    (h : ∀ ref ∈ refsIn document, ∀ ref' ∈ refsFrom document ref,
      ref' = ref ∨ rank ref' < rank ref) :
    LoopsOnly document := by
  have hDown : ∀ {a b : String}, Relation.TransGen (Refers document) b a →
      Relation.TransGen (Refers document) a b → b = a ∨ rank b < rank a := by
    intro a b hBack hPath
    have hMem : a ∈ refsIn document := OnCycle.mem_refsIn (hPath.trans hBack)
    refine holds_of_path (P := fun a b => b = a ∨ rank b < rank a) ?_ h hMem hPath
    rintro x y z (rfl | hxy) (rfl | hyz)
    · exact Or.inl rfl
    · exact Or.inr hyz
    · exact Or.inr hxy
    · exact Or.inr (Nat.lt_trans hyz hxy)
  intro ref ref' hThere hBack
  rcases hDown hThere hBack with hSame | hLess
  · exact hSame
  · rcases hDown hBack hThere with hSame | hLess'
    · exact hSame.symm
    · exact absurd hLess (Nat.lt_asymm hLess')

end ClientGen.Document
