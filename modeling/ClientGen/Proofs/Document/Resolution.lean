import ClientGen.Proofs.Document.Dangling
import ClientGen.Proofs.Document.Pointers

/-!
# Where pointers lead

A pointer that is written for keys resolves to what the keys lead to, and to nothing else.
The way goes through nested mappings, one key for each of them; it ends at the value that
the last key leads to, or it breaks off before. The keys are arbitrary texts. Slashes,
tildes and what looks like an escaped character in them come out of the pointer as they
went in, so a key with a slash does not lead through two mappings and an empty one leads
through a mapping that has it.

Main results:

* `follow?_eq_some_iff` — following keys finds what they lead to.
* `resolve_written` — so does resolving the pointer for them, which fails just where the
  way breaks off.
-/

namespace ClientGen.Document

open ClientGen.Document.Pointer

/-- The keys lead from the first value to the second, each to a member of a mapping. -/
inductive LeadsTo : Value → List String → Value → Prop
  | here (v : Value) : LeadsTo v [] v
  | member {entries : Entries} {key : String} {keys : List String} {v w : Value}
      (hMember : Dictionary.get? entries (.str key) = some v) (h : LeadsTo v keys w) :
      LeadsTo (.map entries) (key :: keys) w

/-- Following keys finds what they lead to. -/
theorem follow?_eq_some_iff {v w : Value} {keys : List String} :
    follow? v keys = some w ↔ LeadsTo v keys w := by
  constructor
  · intro h
    induction keys generalizing v with
    | nil =>
      cases h
      exact .here _
    | cons key keys ih =>
      rw [follow?, Option.bind_eq_some_iff] at h
      obtain ⟨u, hMember, h⟩ := h
      cases v with
      | map entries => exact .member hMember (ih h)
      | _ => cases hMember
  · intro h
    induction h with
    | here => rfl
    | member hMember _ ih =>
      rw [follow?, Value.field?, hMember]
      exact ih

/-- A pointer that does not resolve is named by the fault, which tells no place. -/
theorem resolve_pointerTo_error {document : Value} {keys : List String} (h : keys ≠ [])
    (fault : Fault) :
    resolve document (pointerTo keys) = .error fault ↔
      fault = .unresolved (pointerTo keys) "" ∧ follow? document keys = none := by
  rw [resolve, keys?_pointerTo h]
  dsimp only
  cases follow? document keys with
  | none => simp [eq_comm]
  | some _ => simp

/-- **Pointers lead where their keys lead.** Whatever characters the keys have, the pointer in
which they are written resolves to the value that they lead to through nested mappings. It
does not resolve if and only if the way along the keys breaks off, at a mapping without the
next key or at a value that is no mapping; the fault names the pointer. -/
theorem resolve_written (document : Value) {keys : List String} (h : keys ≠ []) :
    (∀ target, resolve document (pointerTo keys) = .ok target ↔ LeadsTo document keys target) ∧
      ∀ fault, resolve document (pointerTo keys) = .error fault ↔
        fault = .unresolved (pointerTo keys) "" ∧ BreaksOff document keys := by
  constructor
  · intro target
    rw [resolve_pointerTo h, follow?_eq_some_iff]
  · intro fault
    rw [resolve_pointerTo_error h, follow?_eq_none_iff]

/-- Keys that look like separators and like escaped characters. -/
def awkwardKeys : Value :=
  .map [(.str "a/b", .map [(.str "~1", .map [(.str "", .map [(.str "~01", .str "found")])])]),
    (.str "a", .map [(.str "b", .list [.str "other"])])]

theorem resolve_awkwardKeys :
    pointerTo ["a/b", "~1", "", "~01"] = "#/a~1b/~01//~001" ∧
      resolve awkwardKeys (pointerTo ["a/b", "~1", "", "~01"]) = .ok (.str "found") ∧
      resolve awkwardKeys (pointerTo ["a", "b", "0"]) =
        .error (.unresolved (pointerTo ["a", "b", "0"]) "") := by
  refine ⟨by decide +kernel, ?_, ?_⟩
  · refine ((resolve_written awkwardKeys (by simp)).1 _).mpr ?_
    exact .member (by cbv) (.member (by cbv) (.member (by cbv) (.member (by cbv) (.here _))))
  · -- the third key would lead into a list
    refine ((resolve_written awkwardKeys (by simp)).2 _).mpr ⟨rfl, ?_⟩
    exact .step (v := .map [(.str "b", .list [.str "other"])]) (by cbv)
      (.step (v := .list [.str "other"]) (by cbv) (.noMapping rfl))

end ClientGen.Document
