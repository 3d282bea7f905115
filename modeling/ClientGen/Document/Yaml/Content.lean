import ClientGen.Document.Value
import ClientGen.Document.Yaml.Tag
import ClientGen.Document.Yaml.Failure
import ClientGen.Number.Numeral
import ClientGen.Text.Base64
import ClientGen.Text.Quoted

/-!
# The content of YAML scalars

The value of a scalar's text under its tag. Numbers may be grouped by underscores and may be written in
base sixty, as in `1:30:00`.
-/

namespace ClientGen.Document.Yaml

open ClientGen.Text

/-- A scalar without a value. -/
def badContent {α : Type} (message : String) : Except Failure α := .error (.content message)

/-- The text without the underscores that group its digits. -/
def ungrouped (cs : List Char) : List Char := cs.filter (· != '_')

/-- The integer that a text stands for in a base. -/
def readInt (base : Nat) (cs : List Char) : Except Failure Int :=
  match Numeral.int? base cs with
  | some n => .ok n
  | none =>
    badContent ("invalid literal for int() with base " ++ toString base ++ ": " ++ quoted (.ofList cs))

/-- The double that a text stands for. -/
def readFloat (cs : List Char) : Except Failure Double :=
  match Numeral.float? cs with
  | some x => .ok x
  | none => badContent ("could not convert string to float: " ++ quoted (.ofList cs))

/-- The integer that an ungrouped text without its sign stands for. -/
def unsignedInt (cs : List Char) : Except Failure Int :=
  match cs with
  | [] => .error .noDigits
  | ['0'] => .ok 0
  | '0' :: 'b' :: digits => readInt 2 digits
  | '0' :: 'x' :: digits => readInt 16 digits
  | c :: _ => do
    if c == '0' then readInt 8 cs
    else if cs.contains ':' then
      let parts ← (splitOn ':' cs).mapM (readInt 10)
      return parts.foldl (fun n part => 60 * n + part) 0
    else readInt 10 cs

/-- The value of an integer scalar. -/
def intValue (cs : List Char) : Except Failure Value := do
  let digits := ungrouped cs
  let n ← unsignedInt (Tag.unsigned digits)
  return .int (if digits.head? == some '-' then -n else n)

/-- The sum of parts in base sixty, the last part first. Parts are weighed and added in order, each step
rounding. -/
def sumSixtieths (base : Nat) (sum : Double) : List Double → Double
  | [] => sum
  | part :: more => sumSixtieths (60 * base) (sum.add (part.mul (.ofInt base))) more

/-- The double that an ungrouped text without its sign stands for. -/
def unsignedFloat (cs : List Char) : Except Failure Double :=
  if cs == ".inf".toList then .ok (.infinite false)
  else if cs == ".nan".toList then .ok .nan
  else if cs.contains ':' then do
    let parts ← (splitOn ':' cs).mapM readFloat
    return sumSixtieths 1 (.ofInt 0) parts.reverse
  else readFloat cs

/-- The double with the other sign. -/
def negated : Double → Double
  | .finite s m => .finite (!s) m
  | .infinite s => .infinite (!s)
  | .nan => .nan

/-- The value of a floating-point scalar. -/
def floatValue (cs : List Char) : Except Failure Value := do
  let digits := lower (ungrouped cs)
  if digits.isEmpty then .error .noDigits
  else
    let x ← unsignedFloat (Tag.unsigned digits)
    return .float (if digits.head? == some '-' then negated x else x)

/-- The value of a scalar that is tagged as a truth value. -/
def boolValue (cs : List Char) : Except Failure Value :=
  let word := String.ofList (lower cs)
  if ["yes", "true", "on"].contains word then .ok (.bool true)
  else if ["no", "false", "off"].contains word then .ok (.bool false)
  else .error .word

/-- The date of the given year, month and day, if there is one. -/
def dateOf (year month day : Nat) : Except Failure Date :=
  if year = 0 then badContent "year 0 is out of range"
  else if month = 0 ∨ 12 < month then badContent "month must be in 1..12"
  else if day = 0 ∨ Date.monthDays year month < day then badContent "day is out of range for month"
  else .ok ⟨year, month, day⟩

/-- The span of a number of minutes, as days and the seconds after them. -/
def spanText (minutes : Int) : String :=
  let days := minutes / 1440
  let seconds := minutes % 1440 * 60
  let parts :=
    (if days = 0 then [] else ["days=" ++ toString days])
      ++ (if seconds = 0 then [] else ["seconds=" ++ toString seconds])
  "datetime.timedelta(" ++ ", ".intercalate parts ++ ")"

/-- The zone that a sign, hours and minutes stand for. It is less than a day away. -/
def zoneOf (sign : Char) (hours minutes : List Char) : Except Failure Int :=
  let size := Json.digitsValue hours * 60 + Json.digitsValue minutes
  let zone : Int := if sign == '-' then -(size : Int) else size
  if size < 1440 then .ok zone
  else
    badContent ("offset must be a timedelta strictly between -timedelta(hours=24) and "
      ++ "timedelta(hours=24), not " ++ spanText zone ++ ".")

/-- The millionths of a second that the digits after a point stand for. -/
def microOf (fraction : List Char) : Nat :=
  let digits := fraction.take 6
  Json.digitsValue (digits ++ List.replicate (6 - digits.length) '0')

/-- The value of a scalar that is tagged as a time. -/
def timeValue (cs : List Char) : Except Failure Value :=
  match TimeText.ofText? cs with
  | none => .error .noTime
  | some t => do
    let year := Json.digitsValue t.year
    let month := Json.digitsValue t.month
    let day := Json.digitsValue t.day
    match t.clock with
    | none => return .date (← dateOf year month day)
    | some (hourText, minuteText, secondText) =>
      let hour := Json.digitsValue hourText
      let minute := Json.digitsValue minuteText
      let second := Json.digitsValue secondText
      let zone ←
        match t.zone with
        | none => pure none
        | some none => pure (some 0)
        | some (some (sign, hours, minutes)) => (zoneOf sign hours minutes).map some
      let date ← dateOf year month day
      -- The date is checked before the time of day.
      if 23 < hour then badContent "hour must be in 0..23"
      else if 59 < minute then badContent "minute must be in 0..59"
      else if 59 < second then badContent "second must be in 0..59"
      else return .moment { date, hour, minute, second, micro := microOf t.fraction, zone }

/-- The value of a scalar. -/
def scalarValue (tag : Tag) (text : String) : Except Failure Value :=
  let cs := text.toList
  match tag with
  | .null => .ok .null
  | .bool => boolValue cs
  | .int => intValue cs
  | .float => floatValue cs
  | .binary =>
    if cs.all (·.toNat < 0x80) then
      match Base64.decode? cs with
      | some bs => .ok (.bytes bs)
      | none => .error .malformed
    else .error .malformed
  | .timestamp => timeValue cs
  | .str => .ok (.str text)
  | .seq | .map | .set | .pairs | .merge | .default | .unknown => .error .malformed

end ClientGen.Document.Yaml
