import ClientGen.Proofs.Document.Expansion

/-!
# Expansion by plain recursion

The meaning of a reference is its target, expanded in the same way: a recursion that
remembers nothing and does not look at what is being expanded. It ends only where no
reference leads back to itself, so it is cut off at a depth.

A document without cycles is expanded to just what the recursion makes of it once it is
allowed to go deep enough, faults included. So neither the memory of targets nor the
references that are being expanded can be seen in the result.

Main results:

* `expand_eq_plainly` — without cycles, expansion and the plain recursion have the
  same outcome.
* `outcome_expand_of_plainly` — so the recursion tells what a document is expanded to.
-/

namespace ClientGen.Document

open ClientGen.Schema

/-- Expand the values of entries at a place of the document, in order. -/
def plainMembers (f : String → Value → ExceptT Fault Option Value) (place : String)
    (entries : Entries) : ExceptT Fault Option Entries :=
  entries.mapM fun (k, v) => do return (k, ← f s!"{place}/{k.display}" v)

/-- What takes the place of a reference: if the target is a mapping, its entries with the reference
under the key of origins, and over both the siblings; any other target as it is. -/
def inPlaceOf (ref : String) (siblings : Entries) : Value → Value
  | .map entries =>
    .map (Dictionary.overlay (Dictionary.put entries (.str originKey) (.str ref)) siblings)
  | target => target

/-- Expand a reference whose siblings are expanded already. One to a component schema that is missing
stays what it is. -/
def plainReference (f : String → Value → ExceptT Fault Option Value) (document : Value)
    (place ref : String) (siblings : Entries) : ExceptT Fault Option Value :=
  match resolve document ref with
  | .ok target => do return inPlaceOf ref siblings (← f ref target)
  | .error _ =>
    if ref.startsWith schemaPointer then
      return .map (Dictionary.overlay [(.str refKey, .str ref)] siblings)
    else throw (.unresolved ref place)

/-- Expand the references in a value, each into its own expansion of its target. Below the
depth there is no outcome. -/
def plainValue (document : Value) : Nat → String → Value → ExceptT Fault Option Value
  | 0, _, _ => ExceptT.mk none
  | depth + 1, place, .list items => do
    let expanded ← items.zipIdx.mapM fun (v, index) =>
      plainValue document depth s!"{place}/{index}" v
    return .list expanded
  | depth + 1, place, .map entries =>
    match openRef? (.map entries) with
    | none => do return .map (← plainMembers (plainValue document depth) place entries)
    | some ref => do
      let siblings ← plainMembers (plainValue document depth) place
        (Dictionary.erase entries (.str refKey))
      plainReference (plainValue document depth) document place ref siblings
  | _, _, other => pure other

/-- The document with its references expanded by plain recursion, if that ends at the depth. -/
def expandPlainly (depth : Nat) (document : Value) : Option (Except Fault Value) :=
  (plainValue document depth "#" document).run

-- ---------------------------------------------------------------------------
-- Deep enough
-- ---------------------------------------------------------------------------

/-- From some depth on the recursion has this outcome. -/
def Settles {α : Type} (x : Nat → ExceptT Fault Option α) (o : Except Fault α) : Prop :=
  ∃ depth, ∀ deeper ≥ depth, (x deeper).run = some o

section Settles

variable {α β : Type} {x y : Nat → ExceptT Fault Option α}

theorem Settles.pure (a : α) : Settles (fun _ => Pure.pure a) (.ok a) :=
  ⟨0, fun _ _ => rfl⟩

/-- One level of the recursion more. -/
theorem Settles.deeper {o : Except Fault α} (h : Settles x o)
    (hLevel : ∀ depth, y (depth + 1) = x depth) : Settles y o := by
  obtain ⟨depth, hx⟩ := h
  refine ⟨depth + 1, fun deeper hDeeper => ?_⟩
  obtain ⟨level, rfl⟩ := Nat.exists_eq_add_of_le' hDeeper
  rw [← Nat.add_assoc, hLevel]
  exact hx _ (Nat.le_add_left _ _)

theorem Settles.bind {f : Nat → α → ExceptT Fault Option β} {a : α} {o : Except Fault β}
    (hx : Settles x (.ok a)) (hf : Settles (fun depth => f depth a) o) :
    Settles (fun depth => x depth >>= f depth) o := by
  obtain ⟨depth, hx⟩ := hx
  obtain ⟨depth', hf⟩ := hf
  refine ⟨max depth depth', fun deeper hDeeper => ?_⟩
  obtain ⟨hLeft, hRight⟩ := Nat.max_le.mp hDeeper
  rw [ExceptT.run_bind, hx deeper hLeft]
  exact hf deeper hRight

theorem Settles.fail {f : Nat → α → ExceptT Fault Option β} {fault : Fault}
    (hx : Settles x (.error fault)) :
    Settles (fun depth => x depth >>= f depth) (.error fault) := by
  obtain ⟨depth, hx⟩ := hx
  refine ⟨depth, fun deeper hDeeper => ?_⟩
  rw [ExceptT.run_bind, hx deeper hDeeper]
  rfl

theorem Settles.map {g : α → β} {o : Except Fault α} (hx : Settles x o) :
    Settles (fun depth => do return g (← x depth)) (o.map g) := by
  cases o with
  | ok a => exact hx.bind (.pure (g a))
  | error fault => exact hx.fail

end Settles

variable {document : Value}

-- ---------------------------------------------------------------------------
-- Agreement
-- ---------------------------------------------------------------------------

theorem inPlaceOf_eq (ref : String) (siblings : Entries) (v : Value) :
    inPlaceOf ref siblings v = withSiblings siblings (withOrigin ref v) := by
  cases v <;> rfl

/-- Values that hold no others are what they are. -/
theorem plainValue_scalar {depth : Nat} {place : String} {v : Value}
    (hList : ∀ items, v ≠ .list items) (hMap : ∀ entries, v ≠ .map entries) :
    plainValue document (depth + 1) place v = pure v := by
  cases v with
  | list items => exact absurd rfl (hList items)
  | map entries => exact absurd rfl (hMap entries)
  | _ => rfl

theorem plainValue_map {depth : Nat} {place : String} {entries : Entries}
    (h : openRef? (.map entries) = none) :
    plainValue document (depth + 1) place (.map entries) = do
      return .map (← plainMembers (plainValue document depth) place entries) := by
  rw [plainValue, h]

theorem plainValue_ref {depth : Nat} {place ref : String} {entries : Entries}
    (h : openRef? (.map entries) = some ref) :
    plainValue document (depth + 1) place (.map entries) =
      plainMembers (plainValue document depth) place (Dictionary.erase entries (.str refKey)) >>=
        plainReference (plainValue document depth) document place ref := by
  rw [plainValue, h]

mutual

/-- Without cycles the rules of expansion leave no choice. -/
theorem Expands.plainly (hAcyclic : Acyclic document) {inside : Option String} {place : String}
    {v : Value} {o : Except Fault Value} :
    Expands document inside place v o → Settles (fun depth => plainValue document depth place v) o
  | .scalar hList hMap => (Settles.pure _).deeper fun _ => plainValue_scalar hList hMap
  | .list hItems => (hItems.plainly hAcyclic).map.deeper fun _ => plainValue.eq_2 ..
  | .map hPlain hEntries =>
    (hEntries.plainly hAcyclic).map.deeper fun _ => plainValue_map hPlain
  | .siblings hRef hSiblings =>
    (hSiblings.plainly hAcyclic).fail.deeper fun _ => plainValue_ref hRef
  | .target hRef _ hSiblings hTarget h => by
    refine ((hSiblings.plainly hAcyclic).bind ?_).deeper fun _ => plainValue_ref hRef
    simp only [plainReference, hTarget, inPlaceOf_eq]
    exact (h.plainly hAcyclic).map
  | .leave hRef hSiblings (.inl ⟨hSchema, _, hTarget⟩) => by
    refine ((hSiblings.plainly hAcyclic).bind ?_).deeper fun _ => plainValue_ref hRef
    simp only [plainReference, hTarget, if_pos hSchema]
    exact .pure _
  | .leave _ _ (.inr hRecurs) => absurd hRecurs.onCycle (hAcyclic _)
  | .dangling hRef hSiblings hTarget hOther => by
    refine ((hSiblings.plainly hAcyclic).bind ?_).deeper fun _ => plainValue_ref hRef
    simp only [plainReference, hTarget, hOther]
    exact ⟨0, fun _ _ => rfl⟩

theorem ItemsExpand.plainly (hAcyclic : Acyclic document) {inside : Option String} {place : String}
    {index : Nat} {items : List Value} {o : Except Fault (List Value)} :
    ItemsExpand document inside place index items o →
      Settles (fun depth => (items.zipIdx index).mapM fun (v, index) =>
        plainValue document depth s!"{place}/{index}" v) o
  | .nil => .pure []
  | .fail head => by
    simp only [List.zipIdx_cons, List.mapM_cons]
    exact (head.plainly hAcyclic).fail
  | .cons head rest => by
    simp only [List.zipIdx_cons, List.mapM_cons]
    exact (head.plainly hAcyclic).bind (rest.plainly hAcyclic).map

theorem EntriesExpand.plainly (hAcyclic : Acyclic document) {inside : Option String}
    {place : String} {entries : Entries} {o : Except Fault Entries} :
    EntriesExpand document inside place entries o →
      Settles (fun depth => plainMembers (plainValue document depth) place entries) o
  | .nil => .pure []
  | .fail head => by
    simp only [plainMembers, List.mapM_cons]
    exact (head.plainly hAcyclic).fail.fail
  | .cons head rest => by
    simp only [plainMembers, List.mapM_cons]
    exact (head.plainly hAcyclic).map.bind (rest.plainly hAcyclic).map

end

/-- What the recursion makes of a document at all large depths is what it is expanded to. -/
theorem outcome_expand_of_plainly {enough : Nat} {o : Except Fault Value} (hAcyclic : Acyclic document)
    (h : ∀ deeper, expandPlainly (deeper + enough) document = some o) : (expand document).outcome = o := by
  obtain ⟨depth, hPlainly⟩ := (expand_follows document).plainly hAcyclic
  exact Option.some.inj ((hPlainly _ (Nat.le_add_right _ _)).symm.trans (h depth))

/-- **Expansion is plain recursion.** A document without cycles is expanded to what the
plain recursion makes of it, and has the same fault if it has one. -/
theorem expand_eq_plainly (hAcyclic : Acyclic document) :
    ∃ depth, ∀ deeper ≥ depth, expandPlainly deeper document = some (expand document).outcome :=
  (expand_follows document).plainly hAcyclic

/-- A schema that refers to another one, which is used twice and refers to a missing one. -/
def chainedEntries : Entries :=
  [
    (.str "first", .map [(.str "$ref", .str "#/components/schemas/Order"), (.str "title", .str "One")]),
    (.str "second", .list [.map [(.str "$ref", .str "#/components/schemas/Order")]]),
    (.str "components", .map [(.str "schemas", .map [
      (.str "Order", .map [(.str "$ref", .str "#/components/schemas/Base")]),
      (.str "Base", .map [(.str "items", .map [(.str "$ref", .str "#/components/schemas/Gone")])])])])]

/-- The document. -/
def chainedSchemas : Value := .map chainedEntries

/-- The items of the base, which stay a reference. -/
def goneItems : Value × Value := (.str "items", .map [(.str "$ref", .str "#/components/schemas/Gone")])

/-- The base, put in the place of a reference. -/
def baseFor (ref : String) : Value := .map [goneItems, (.str "x-sdkgen-ref", .str ref)]

/-- The document expanded. -/
def expandedSchemas : Value :=
  .map [
    (.str "first", .map [goneItems, (.str "x-sdkgen-ref", .str "#/components/schemas/Order"),
      (.str "title", .str "One")]),
    (.str "second", .list [baseFor "#/components/schemas/Order"]),
    (.str "components", .map [(.str "schemas", .map [
      (.str "Order", baseFor "#/components/schemas/Base"),
      (.str "Base", .map [goneItems])])])]

theorem resolve_chainedSchemas :
    resolve chainedSchemas "#/components/schemas/Order" =
        .ok (.map [(.str "$ref", .str "#/components/schemas/Base")]) ∧
      resolve chainedSchemas "#/components/schemas/Base" = .ok (.map [goneItems]) ∧
      resolve chainedSchemas "#/components/schemas/Gone" =
        .error (.unresolved "#/components/schemas/Gone" "") := by
  have hOrder : Pointer.keys? "#/components/schemas/Order" =
      some ["components", "schemas", "Order"] := by decide +kernel
  have hBase : Pointer.keys? "#/components/schemas/Base" =
      some ["components", "schemas", "Base"] := by decide +kernel
  have hGone : Pointer.keys? "#/components/schemas/Gone" =
      some ["components", "schemas", "Gone"] := by decide +kernel
  simp [resolve, hOrder, hBase, hGone, chainedSchemas, chainedEntries, goneItems, Pointer.follow?,
    Value.field?, Dictionary.get?]

theorem expandPlainly_chainedSchemas (deeper : Nat) :
    expandPlainly (deeper + 12) chainedSchemas = some (.ok expandedSchemas) := by
  obtain ⟨hOrder, hBase, hGone⟩ := resolve_chainedSchemas
  have hSchema : "#/components/schemas/Gone".startsWith schemaPointer = true := by decide +kernel
  have hTitle : (Value.str "title" == .str "$ref") = false := by decide +kernel
  -- the document stays closed, what is expanded does not
  show (plainValue chainedSchemas (deeper + 12) "#" (.map chainedEntries)).run = _
  simp [chainedEntries, expandedSchemas, goneItems, baseFor, plainValue, plainMembers, plainReference,
    inPlaceOf, hOrder, hBase, hGone, hSchema, hTitle, openRef?, Value.field?, Dictionary.get?,
    Dictionary.erase, Dictionary.put, Dictionary.overlay, refKey, originKey]

/-- Of a chain of references the first one is remembered as the origin. -/
theorem expand_chainedSchemas :
    Acyclic chainedSchemas ∧ ∃ depth, (expand chainedSchemas).outcome = .ok expandedSchemas ∧
      ∀ deeper ≥ depth, expandPlainly deeper chainedSchemas = some (.ok expandedSchemas) := by
  have hAcyclic : Acyclic chainedSchemas :=
    acyclic_of_rank
      (fun ref => if ref.endsWith "Order" then 2 else if ref.endsWith "Base" then 1 else 0) (by decide +kernel)
  obtain ⟨depth, hPlainly⟩ := expand_eq_plainly hAcyclic
  have hExpanded := outcome_expand_of_plainly hAcyclic expandPlainly_chainedSchemas
  rw [hExpanded] at hPlainly
  exact ⟨hAcyclic, depth, hExpanded, hPlainly⟩

end ClientGen.Document
