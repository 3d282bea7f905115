import ClientGen.Document.Display
import ClientGen.Document.Order

/-!
# Writing values as JSON

Two forms. `compact` keeps the order of entries, uses no blanks and has notations for the values that
JSON lacks; it writes any value. `canonical` sorts the entries of each mapping by key, has a blank after
each comma and colon and writes calendar values, bytes and sets as texts; it fails on keys that have no
common order or no JSON form.
-/

namespace ClientGen.Document.Json

open ClientGen.Text

/-- The spellings of special numbers. -/
def spelling : Double.Spelling := ⟨"NaN", "Infinity"⟩

/-- The escape sequence of one unit of 16 bits. -/
def unitEscape (n : Nat) : List Char := backslash :: 'u' :: hexDigits 4 n

/-- One character of a text. Everything outside printable ASCII is escaped, above U+FFFF as a
surrogate pair. -/
def textChar (c : Char) : List Char :=
  if c == doubleQuote || c == backslash then [backslash, c]
  else if c == '\n' then [backslash, 'n']
  else if c == '\r' then [backslash, 'r']
  else if c == '\t' then [backslash, 't']
  else if c == '\x08' then [backslash, 'b']
  else if c == '\x0c' then [backslash, 'f']
  else if 0x20 ≤ c.toNat && c.toNat < 0x7f then [c]
  else if c.toNat < 0x10000 then unitEscape c.toNat
  else
    unitEscape (0xd800 + (c.toNat - 0x10000) / 0x400) ++ unitEscape (0xdc00 + (c.toNat - 0x10000) % 0x400)

/-- A text in double quotes. -/
def textLiteral (s : String) : String :=
  .ofList (doubleQuote :: s.toList.flatMap textChar ++ [doubleQuote])

mutual

/-- The compact text of a value. -/
def compact : Value → String
  | .null => "null"
  | .bool b => if b then "true" else "false"
  | .int n => toString n
  | .float x => x.text spelling
  | .str s => textLiteral s
  | .list items => "[" ++ ",".intercalate (compactItems items) ++ "]"
  | .map entries => "\x7b" ++ ",".intercalate (compactEntries entries) ++ "\x7d"
  | .date d => "date(" ++ d.text ++ ")"
  | .moment m => "datetime(" ++ m.text ++ ")"
  | .bytes bs => "bytes(" ++ .ofList (bs.flatMap fun b => hexDigits 2 b.toNat) ++ ")"
  | .set items => "set(" ++ ",".intercalate ((compactItems items).mergeSort (· ≤ ·)) ++ ")"

/-- The compact texts of items. -/
def compactItems : List Value → List String
  | [] => []
  | v :: vs => compact v :: compactItems vs

/-- The compact texts of entries. -/
def compactEntries : List (Value × Value) → List String
  | [] => []
  | (k, v) :: es => (compact k ++ ":" ++ compact v) :: compactEntries es

end

/-- The text of a key: a text is itself, other scalars have their JSON form. -/
def keyText? : Value → Option String
  | .str s => some s
  | .null => some "null"
  | .bool b => some (if b then "true" else "false")
  | .int n => some (toString n)
  | .float x => some (x.text spelling)
  | _ => none

mutual

/-- The canonical text of a value. -/
def canonical? : Value → Option String
  | .null => some "null"
  | .bool b => some (if b then "true" else "false")
  | .int n => some (toString n)
  | .float x => some (x.text spelling)
  | .str s => some (textLiteral s)
  | .list items => do return "[" ++ ", ".intercalate (← canonicalItems? items) ++ "]"
  | .map entries => do
    let sorted ← Value.sortOn? (·.1) (← canonicalEntries? entries)
    return "\x7b" ++ ", ".intercalate (sorted.map (·.2)) ++ "\x7d"
  | v => some (textLiteral v.display)

/-- The canonical texts of items. -/
def canonicalItems? : List Value → Option (List String)
  | [] => some []
  | v :: vs => do return (← canonical? v) :: (← canonicalItems? vs)

/-- The keys of entries, each with the canonical text of its entry. -/
def canonicalEntries? : List (Value × Value) → Option (List (Value × String))
  | [] => some []
  | (k, v) :: es => do
    let entry := textLiteral (← keyText? k) ++ ": " ++ (← canonical? v)
    return (k, entry) :: (← canonicalEntries? es)

end

end ClientGen.Document.Json
