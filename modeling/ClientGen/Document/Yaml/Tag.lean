import ClientGen.Document.Calendar
import ClientGen.Document.Json.Reader

/-!
# YAML tags

A tag says what a node stands for. A plain scalar without a tag gets the one that its form suggests: an
empty text is nothing, `yes` a truth value, `0x1F` an integer, `1.5` a floating-point number,
`2020-01-31` a time, and everything else a text.
-/

namespace ClientGen.Document.Yaml

/-- What a node stands for. -/
inductive Tag where
  | null | bool | int | float | binary | timestamp | str | seq | map | set | pairs
  /-- the key whose value is merged into the mapping -/
  | merge
  /-- the key of a mapping's default value -/
  | default
  | unknown
  deriving DecidableEq, Repr

namespace Tag

/-- What the names of the standard tags start with. -/
def standard : String := "tag:yaml.org,2002:"

/-- The standard tags by name. -/
def named : List (String × Tag) := [
  ("null", .null), ("bool", .bool), ("int", .int), ("float", .float), ("binary", .binary),
  ("timestamp", .timestamp), ("str", .str), ("seq", .seq), ("map", .map), ("set", .set),
  ("pairs", .pairs), ("omap", .pairs), ("merge", .merge), ("value", .default)]

/-- The tag with a full name. -/
def ofName (name : String) : Tag :=
  ((named.find? fun t => standard ++ t.1 == name).map (·.2)).getD .unknown

/-! ## The forms of plain scalars -/

/-- Digits of a base that may be grouped by underscores. -/
def isGrouped (digit : Char → Bool) (cs : List Char) : Bool := cs.all fun c => digit c || c == '_'

/-- The text without a sign. -/
def unsigned : List Char → List Char
  | c :: rest => if c == '+' || c == '-' then rest else c :: rest
  | [] => []

/-- Is it a part of a number in base sixty: one digit, or two of which the first is below six? -/
def isSixtieth : List Char → Bool
  | [a] => a.isDigit
  | [a, b] => '0' ≤ a && a ≤ '5' && b.isDigit
  | _ => false

/-- Is it a list of parts in base sixty, each after a colon? `fuel` bounds their number. -/
def areSixtieths : (fuel : Nat) → List Char → Bool
  | fuel + 1, ':' :: rest =>
    let part := rest.takeWhile (· != ':')
    let after := rest.drop part.length
    isSixtieth part && (after.isEmpty || areSixtieths fuel after)
  | _, _ => false

/-- Is the unsigned text an integer? -/
def isUnsignedInt (cs : List Char) : Bool :=
  match cs with
  | '0' :: rest =>
    match rest with
    | [] => true
    | 'b' :: digits => !digits.isEmpty && isGrouped (fun c => c == '0' || c == '1') digits
    | 'x' :: digits => !digits.isEmpty && isGrouped (fun c => (Json.hexDigit? c).isSome) digits
    | _ => isGrouped (fun c => '0' ≤ c && c ≤ '7') rest
  | c :: rest =>
    let whole := rest.takeWhile fun d => d.isDigit || d == '_'
    let after := rest.drop whole.length
    c.isDigit && (after.isEmpty || areSixtieths after.length after)
  | [] => false

/-- Is it nothing, or an exponent with a sign? -/
def isExponent : List Char → Bool
  | [] => true
  | e :: sign :: digits =>
    (e == 'e' || e == 'E') && (sign == '+' || sign == '-') && !digits.isEmpty && digits.all Char.isDigit
  | _ => false

/-- The text after digits that may be grouped by underscores. -/
def afterGrouped (cs : List Char) : List Char := cs.dropWhile fun c => c.isDigit || c == '_'

/-- Is it a point with digits and an exponent after it? -/
def isFraction (exponent : Bool) : List Char → Bool
  | '.' :: rest =>
    let after := afterGrouped rest
    if exponent then isExponent after else after.isEmpty
  | _ => false

/-- Is the unsigned text a floating-point number with a digit at its front? -/
def isUnsignedFloat (cs : List Char) : Bool :=
  let afterWhole := afterGrouped cs
  let parts := afterWhole.takeWhile (· != '.')
  (cs.head?.map Char.isDigit).getD false
    && (isFraction true afterWhole
      || (areSixtieths parts.length parts && isFraction false (afterWhole.drop parts.length)))

/-- Is it a floating-point number that starts with a point? -/
def isPointFloat : List Char → Bool
  | '.' :: d :: rest => d.isDigit && isFraction true ('.' :: d :: rest)
  | _ => false

/-- Does the text have the form of a floating-point number? -/
def isFloat (cs : List Char) : Bool :=
  isUnsignedFloat (unsigned cs) || isPointFloat cs
    || [".inf", ".Inf", ".INF"].contains (String.ofList (unsigned cs))
    || [".nan", ".NaN", ".NAN"].contains (String.ofList cs)

end Tag

/-! ## Times -/

/-- The parts of a time as they are written. -/
structure TimeText where
  year : List Char
  month : List Char
  day : List Char
  clock : Option (List Char × List Char × List Char) := none
  fraction : List Char := []
  /-- the letter for universal time, or a sign, the hours and the minutes -/
  zone : Option (Option (Char × List Char × List Char)) := none

namespace TimeText

/-- Up to `most` digits at the front of a text, and the text after them. At least `least` are needed. -/
def digits? (least most : Nat) (cs : List Char) : Option (List Char × List Char) :=
  let ds := (cs.take most).takeWhile Char.isDigit
  if ds.length < least then none else some (ds, cs.drop ds.length)

/-- The text after a character. -/
def after? (c : Char) : List Char → Option (List Char)
  | d :: rest => if d == c then some rest else none
  | [] => none

/-- Is it a space or a tab? -/
def isGap (c : Char) : Bool := c == ' ' || c == '\t'

/-- The zone at the end of a time. -/
def zone? (cs : List Char) : Option (Option (Option (Char × List Char × List Char))) :=
  match cs.dropWhile isGap with
  | [] => if cs.isEmpty then some none else none
  | ['Z'] => some (some none)
  | sign :: rest => do
    if sign == '+' || sign == '-' then
      let (hours, rest) ← digits? 1 2 rest
      match rest with
      | [] => return some (some (sign, hours, []))
      | _ =>
        let (minutes, rest) ← digits? 2 2 (← after? ':' rest)
        if rest.isEmpty then return some (some (sign, hours, minutes)) else none
    else none

/-- The text after what separates a date from the time of day. -/
def afterGap? (cs : List Char) : Option (List Char) :=
  match cs with
  | c :: rest =>
    if c == 'T' || c == 't' then some rest
    else if isGap c then some (rest.dropWhile isGap)
    else none
  | [] => none

/-- The parts of a text that is written as a time. -/
def ofText? (cs : List Char) : Option TimeText := do
  let (year, rest) ← digits? 4 4 cs
  let (month, rest) ← digits? 1 2 (← after? '-' rest)
  let (day, rest) ← digits? 1 2 (← after? '-' rest)
  match rest with
  | [] => return { year, month, day }
  | _ =>
    let (hour, rest) ← digits? 1 2 (← afterGap? rest)
    let (minute, rest) ← digits? 2 2 (← after? ':' rest)
    let (second, rest) ← digits? 2 2 (← after? ':' rest)
    let (fraction, rest) :=
      match after? '.' rest with
      | some tail => (tail.takeWhile Char.isDigit, tail.dropWhile Char.isDigit)
      | none => ([], rest)
    return { year, month, day, clock := some (hour, minute, second), fraction, zone := ← zone? rest }

/-- Does a plain text with these parts stand for a time? A date alone needs two digits for the month and
the day. -/
def isPlain (t : TimeText) : Bool :=
  t.clock.isSome || (t.month.length == 2 && t.day.length == 2)

end TimeText

namespace Tag

/-- The tag of a plain scalar by its form. -/
def ofPlain (cs : List Char) : Tag :=
  let word := String.ofList cs
  if ["yes", "Yes", "YES", "no", "No", "NO", "true", "True", "TRUE", "false", "False", "FALSE",
      "on", "On", "ON", "off", "Off", "OFF"].contains word then .bool
  else if isFloat cs then .float
  else if isUnsignedInt (unsigned cs) then .int
  else if word == "<<" then .merge
  else if ["", "~", "null", "Null", "NULL"].contains word then .null
  else if ((TimeText.ofText? cs).map (·.isPlain)).getD false then .timestamp
  else if word == "=" then .default
  else .str

end Tag

end ClientGen.Document.Yaml
