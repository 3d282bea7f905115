import ClientGen.Fault

/-!
# Reading parts of values

Documents come unchecked, so the places where a mapping, a list or a text is needed can hold anything.
The functions here take a value as what is needed and fail with the misuse that this is otherwise. A
text counts as the list of its characters and a mapping as the list of its keys.
-/

namespace ClientGen.Document.Value

/-- The misuse of a value as something it is not. -/
def misused {α : Type} (m : Misuse) : Except Fault α := .error (.misuse m)

/-- The entries of a mapping. -/
def entries : Value → Except Fault Entries
  | .map entries => .ok entries
  | _ => misused .member

/-- The member of a mapping at a text key. -/
def member (v : Value) (name : String) : Except Fault (Option Value) := do
  return Dictionary.get? (← v.entries) (.str name)

/-- The items of a value that can be gone through. -/
def elements : Value → Except Fault (List Value)
  | .list items => .ok items
  | .set items => .ok items
  | .map entries => .ok (Dictionary.keys entries)
  | .str s => .ok (s.toList.map fun c => .str (.singleton c))
  | .bytes bs => .ok (bs.map fun b => .int b.toNat)
  | _ => misused .kind

/-- Is `word` a part of `text`? -/
def hasPart (word text : List Char) : Bool :=
  match text with
  | [] => word.isEmpty
  | _ :: rest => word.isPrefixOf text || hasPart word rest

/-- Does the text occur in the value: as a key, as an item or as a part? -/
def mentions (v : Value) (name : String) : Except Fault Bool :=
  match v with
  | .map entries => .ok (Dictionary.has entries (.str name))
  | .list items => .ok (items.any (·.isStr name))
  | .set items => .ok (items.any (·.isStr name))
  | .str s => .ok (hasPart name.toList s.toList)
  | _ => misused .kind

/-- The value of a member that is known to be mentioned. -/
def part (v : Value) (name : String) : Except Fault Value :=
  match v with
  | .map entries =>
    match Dictionary.get? entries (.str name) with
    | some w => .ok w
    | none => misused .key
  | _ => misused .kind

/-- An item as an entry: a pair of a key and a value. -/
def asEntry (item : Value) : Except Fault (Value × Value) := do
  match (← item.elements) with
  | [k, v] => if k.canBeKey then return (k, v) else misused .kind
  | _ => misused .content

/-- The entries that a value contributes to a mapping: its own, or its items as pairs. -/
def contribution : Value → Except Fault Entries
  | .map entries => .ok entries
  | v => do (← v.elements).mapM asEntry

/-- The items of a value as keys, which they have to be able to be. -/
def keysOf (v : Value) : Except Fault (List Value) := do
  let items ← v.elements
  if items.all canBeKey then return items else misused .kind

/-- A value that has to be a text. -/
def asText : Value → Except Fault String
  | .str s => .ok s
  | _ => misused .kind

end ClientGen.Document.Value
