import ClientGen.Document.Depth
import ClientGen.Document.Pointer
import ClientGen.Journal
import ClientGen.Schema.Reference

/-!
# Expanding references

Every reference of a document is replaced by the value it points to, with its siblings laid over that
value. A reference to a component schema that is missing, or that would be expanded inside itself, is
left in place; any other reference that leads nowhere is a fault. A target is expanded once and used
for all later references to it.

While a reference is being expanded it is not available for expansion again. So the references that are
available become fewer on the way into a target, and between two targets the way goes down into the
document; that is why expansion ends.
-/

namespace ClientGen.Document

open ClientGen.Schema

/-- Why a reference that names no place in the document cannot be followed. -/
def externalReference : String := "external references are not supported"

/-- The value that a reference points to. -/
def resolve (document : Value) (ref : String) : Except Fault Value :=
  match Pointer.keys? ref with
  | none => .error (.unresolved ref externalReference)
  | some keys =>
    match Pointer.follow? document keys with
    | some target => .ok target
    | none => .error (.unresolved ref "")

mutual

/-- The references inside a value. -/
def refsIn : Value → List String
  | .list items => refsInItems items
  | .map entries =>
    (match Dictionary.get? entries (.str refKey) with
      | some (.str ref) => [ref]
      | _ => []) ++ refsInEntries entries
  | _ => []

/-- The references inside items. -/
def refsInItems : List Value → List String
  | [] => []
  | v :: vs => refsIn v ++ refsInItems vs

/-- The references inside entries. -/
def refsInEntries : List (Value × Value) → List String
  | [] => []
  | (_, v) :: es => refsIn v ++ refsInEntries es

end

/-- Computations that remember the expanded target of each reference. -/
abbrev Expansion := StateT (Dictionary String Value) Journal

/-- A reference that is left in place, with its expanded siblings. -/
def openNode (ref : String) (siblings : Entries) : Value :=
  .map (Dictionary.overlay [(.str refKey, .str ref)] siblings)

/-- An expanded target that remembers where it came from. -/
def withOrigin (ref : String) : Value → Value
  | .map entries => .map (Dictionary.put entries (.str originKey) (.str ref))
  | v => v

/-- An expanded target with the siblings of the reference laid over it. -/
def withSiblings (siblings : Entries) : Value → Value
  | .map entries => .map (Dictionary.overlay entries siblings)
  | v => v

mutual

/-- Expand the references in a value at a place of the document. -/
def expandValue (document : Value) (available : List String) (place : String) (v : Value) :
    Expansion Value :=
  match v with
  | .list items => do return .list (← expandItems document available place 0 items)
  | .map entries =>
    match Dictionary.get? entries (.str refKey) with
    | some (.str ref) => do
      -- The siblings come first, so what is remarked about them precedes what is said of the target.
      let siblings ← expandEntries document available place true entries
      if _here : ref ∈ available then
        match (← get).get? ref with
        | some expanded => return withSiblings siblings expanded
        | none =>
          match resolve document ref with
          | .error _ =>
            if ref.startsWith schemaPointer then
              Journal.warn .loading
                s!"Unresolved schema reference {ref} at {place}; treating as opaque"
              return openNode ref siblings
            else throw (.unresolved ref place)
          | .ok target =>
            -- The cache holds the target without the siblings of this reference.
            let expanded ← expandValue document (available.erase ref) ref target
            let expanded := withOrigin ref expanded
            modify fun cache => cache.put ref expanded
            return withSiblings siblings expanded
      else
        Journal.debug .loading s!"Cyclic reference {ref} at {place} left unresolved"
        return openNode ref siblings
    | _ => do return .map (← expandEntries document available place false entries)
  | other => pure other
termination_by (available.length, v.depth, 0)
decreasing_by
  · simp only [Value.depth, Prod.lex_def, true_and]
    omega
  · simp only [Value.depth, Prod.lex_def, true_and]
    omega
  · apply Prod.Lex.left
    rw [List.length_erase_of_mem _here]
    have := List.length_pos_of_mem _here
    omega
  · simp only [Value.depth, Prod.lex_def, true_and]
    omega

/-- Expand the references in items, the first of which has the given index. -/
def expandItems (document : Value) (available : List String) (place : String) (index : Nat)
    (items : List Value) : Expansion (List Value) :=
  match items with
  | [] => pure []
  | v :: vs => do
    let expanded ← expandValue document available s!"{place}/{index}" v
    return expanded :: (← expandItems document available place (index + 1) vs)
termination_by (available.length, Value.itemsDepth items, items.length + 1)
decreasing_by all_goals simp only [Value.itemsDepth, Prod.lex_def, List.length_cons, true_and]; omega

/-- Expand the references in the values of entries. With `siblings` set, the reference of the node itself
is left out. -/
def expandEntries (document : Value) (available : List String) (place : String) (siblings : Bool)
    (entries : Entries) : Expansion Entries :=
  match entries with
  | [] => pure []
  | (k, v) :: es =>
    if siblings && k.isStr refKey then expandEntries document available place siblings es
    else do
      let expanded ← expandValue document available s!"{place}/{k.display}" v
      return (k, expanded) :: (← expandEntries document available place siblings es)
termination_by (available.length, Value.entriesDepth entries, entries.length + 1)
decreasing_by all_goals simp only [Value.entriesDepth, Prod.lex_def, List.length_cons, true_and]; omega

end

/-- The document with its references expanded. -/
def expand (document : Value) : Journal Value := do
  return (← (expandValue document (refsIn document).eraseDups "#" document).run []).1

end ClientGen.Document
