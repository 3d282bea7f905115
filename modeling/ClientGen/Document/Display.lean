import ClientGen.Document.Value
import ClientGen.Number.Shortest
import ClientGen.Text.Quoted

/-!
# Values in the generated language's notation

`literal` writes a value as an expression of the generated language, which is the form used in messages
and inside larger values. `display` is the same except that a text stands for itself and a calendar
value has its usual form.
-/

namespace ClientGen.Document

open ClientGen.Text

/-- The spellings of special numbers in an expression. -/
def expressionSpelling : Double.Spelling := ⟨"nan", "inf"⟩

/-- A byte inside a bytes literal in the given quotes. -/
def byteChar (quote : Char) (b : UInt8) : List Char :=
  let c := Char.ofNat b.toNat
  if c == quote || c == backslash then [backslash, c]
  else if c == '\n' then [backslash, 'n']
  else if c == '\r' then [backslash, 'r']
  else if c == '\t' then [backslash, 't']
  else if 0x20 ≤ b.toNat && b.toNat < 0x7f then [c]
  else backslash :: 'x' :: hexDigits 2 b.toNat

/-- A bytes literal. -/
def bytesLiteral (bs : List UInt8) : String :=
  let quote := quoteFor (bs.map fun b => Char.ofNat b.toNat)
  .ofList ('b' :: quote :: bs.flatMap (byteChar quote) ++ [quote])

/-- A call with arguments. -/
def call (function : String) (arguments : List String) : String :=
  function ++ "(" ++ ", ".intercalate arguments ++ ")"

/-- The expression for a zone. A distance to the west is a day back and the rest forward. -/
def zoneLiteral (minutes : Int) : String :=
  if minutes = 0 then "datetime.timezone.utc"
  else
    let span :=
      if minutes < 0 then ["days=-1", s!"seconds={(1440 + minutes) * 60}"]
      else [s!"seconds={minutes * 60}"]
    call "datetime.timezone" [call "datetime.timedelta" span]

/-- The expression for a date. -/
def Date.literal (d : Date) : String :=
  call "datetime.date" [toString d.year, toString d.month, toString d.day]

/-- The expression for a moment. Seconds and microseconds are left out when nothing follows them. -/
def Moment.literal (m : Moment) : String :=
  let fine :=
    if m.micro = 0 then (if m.second = 0 then [] else [m.second]) else [m.second, m.micro]
  let numbers := [m.date.year, m.date.month, m.date.day, m.hour, m.minute] ++ fine
  let zone := (m.zone.map fun z => ["tzinfo=" ++ zoneLiteral z]).getD []
  call "datetime.datetime" (numbers.map toString ++ zone)

namespace Value

mutual

/-- The value as an expression. -/
def literal : Value → String
  | .null => "None"
  | .bool b => if b then "True" else "False"
  | .int n => toString n
  | .float x => x.text expressionSpelling
  | .str s => quoted s
  | .list items => "[" ++ ", ".intercalate (literals items) ++ "]"
  | .map entries => "\x7b" ++ ", ".intercalate (entryLiterals entries) ++ "\x7d"
  | .date d => d.literal
  | .moment m => m.literal
  | .bytes bs => bytesLiteral bs
  | .set items =>
    if items.isEmpty then "set()" else "\x7b" ++ ", ".intercalate (literals items) ++ "\x7d"

/-- The items as expressions. -/
def literals : List Value → List String
  | [] => []
  | v :: vs => literal v :: literals vs

/-- The entries as expressions with a colon between key and value. -/
def entryLiterals : List (Value × Value) → List String
  | [] => []
  | (k, v) :: es => (literal k ++ ": " ++ literal v) :: entryLiterals es

end

/-- The text of a value. -/
def display : Value → String
  | .str s => s
  | .date d => d.text
  | .moment m => m.text
  | v => v.literal

end Value

end ClientGen.Document
