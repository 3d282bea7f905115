import ClientGen.Document.Value

/-!
# Reading JSON

A reader for JSON texts that says what it missed and where. Beyond the standard it reads `NaN`,
`Infinity` and `-Infinity`. Integers are exact; a number with a fraction or an exponent is a double. A
name that occurs twice in an object keeps its first place and takes its last value.

Each step returns what is left of the text with a proof that it is shorter, so the reader ends because
the text does. A failure holds the text from the offending place on, from which its position is counted.
-/

namespace ClientGen.Document.Json

/-- What is wrong with a text that is not JSON. -/
inductive Cause where
  | expectingValue
  | expectingName
  | expectingColon
  | expectingComma
  | unterminatedText
  | controlCharacter
  | invalidEscape
  | invalidUnicodeEscape
  | extraData
  | byteOrderMark
  deriving DecidableEq, Repr

/-- The wording of a cause. -/
def Cause.message : Cause → String
  | expectingValue => "Expecting value"
  | expectingName => "Expecting property name enclosed in double quotes"
  | expectingColon => "Expecting ':' delimiter"
  | expectingComma => "Expecting ',' delimiter"
  | unterminatedText => "Unterminated string starting at"
  | controlCharacter => "Invalid control character at"
  | invalidEscape => "Invalid \\escape"
  | invalidUnicodeEscape => "Invalid \\uXXXX escape"
  | extraData => "Extra data"
  | byteOrderMark => "Unexpected UTF-8 BOM (decode using utf-8-sig)"

/-- A cause and the text from the place where it was found. -/
structure Failure where
  cause : Cause
  place : List Char

/-- The message of a failure in a text: the cause with the line, the column and the offset. -/
def Failure.message (f : Failure) (text : List Char) : String :=
  let offset := text.length - f.place.length
  let before := text.take offset
  let line := before.count '\n' + 1
  let column := (before.reverse.takeWhile (· != '\n')).length + 1
  s!"{f.cause.message}: line {line} column {column} (char {offset})"

/-- What a step has read and what is left, less than `size` characters. -/
structure Taken (α : Type) (size : Nat) where
  value : α
  rest : List Char
  shorter : rest.length < size

/-- Put a character before what was read. -/
def Taken.cons {n : Nat} (t : Taken (List Char) n) (c : Char) : Taken (List Char) n :=
  ⟨c :: t.value, t.rest, t.shorter⟩

/-- What is shorter than a text is shorter than every longer one. -/
def Taken.widen {α : Type} {n m : Nat} (t : Taken α n) (h : n ≤ m) : Taken α m :=
  ⟨t.value, t.rest, Nat.lt_of_lt_of_le t.shorter h⟩

/-- The blanks between tokens. -/
def isJsonBlank (c : Char) : Bool := c == ' ' || c == '\t' || c == '\n' || c == '\r'

/-- Drop blanks. -/
def skipBlanks (cs : List Char) : List Char := cs.dropWhile isJsonBlank

theorem skipBlanks_length_le (cs : List Char) : (skipBlanks cs).length ≤ cs.length :=
  (List.dropWhile_sublist _).length_le

/-- The value of a hexadecimal digit. -/
def hexDigit? (c : Char) : Option Nat :=
  if c.isDigit then some (c.toNat - 48)
  else if 'a' ≤ c ∧ c ≤ 'f' then some (c.toNat - 87)
  else if 'A' ≤ c ∧ c ≤ 'F' then some (c.toNat - 55)
  else none

/-- The number written with four hexadecimal digits at the front of a text that goes on after them. -/
def unit? : List Char → Option Nat
  | a :: b :: c :: d :: _ :: _ => do
    return (((← hexDigit? a) * 16 + (← hexDigit? b)) * 16 + (← hexDigit? c)) * 16 + (← hexDigit? d)
  | _ => none

/-- The character that an escape other than `u` stands for. -/
def shortEscape? (c : Char) : Option Char :=
  if c == '\x22' || c == '\x5c' || c == '/' then some c
  else if c == 'b' then some '\x08'
  else if c == 'f' then some '\x0c'
  else if c == 'n' then some '\n'
  else if c == 'r' then some '\r'
  else if c == 't' then some '\t'
  else none

/-- Is the number the first half of a surrogate pair? -/
def isHighSurrogate (n : Nat) : Bool := 0xd800 ≤ n && n < 0xdc00

/-- Is the number the second half of a surrogate pair? -/
def isLowSurrogate (n : Nat) : Bool := 0xdc00 ≤ n && n < 0xe000

/-- The character of a 16-bit unit. A half of a surrogate pair that stands alone is no character, and a
text cannot hold it: it is read as the replacement character U+FFFD, so what was written is lost. -/
def unitChar (n : Nat) : Char :=
  if isHighSurrogate n || isLowSurrogate n then '\ufffd' else Char.ofNat n

/-- The second half of a surrogate pair, written as an escape at the front of the text. It is looked for
only if the text goes on after it. -/
def secondHalf? (cs : List Char) : Except Failure (Option Nat) :=
  match cs with
  | '\x5c' :: 'u' :: low =>
    if low.length ≤ 4 then .ok none
    else
      match unit? low with
      | none => .error ⟨.invalidUnicodeEscape, 'u' :: low⟩
      | some n => .ok (if isLowSurrogate n then some n else none)
  | _ => .ok none

/-- What is left after some characters were dropped is no longer than a text that has them and more. -/
theorem drop_length_le (cs : List Char) (n more : Nat) : (cs.drop n).length ≤ cs.length + more := by
  rw [List.length_drop]
  omega

/-- The rest of a text literal after its opening quote; `start` is the text from that quote on. -/
def readText (start cs : List Char) : Except Failure (Taken (List Char) cs.length) :=
  match cs with
  | [] => .error ⟨.unterminatedText, start⟩
  | c :: rest =>
    if c == '\x22' then .ok ⟨[], rest, Nat.lt_succ_self _⟩
    else if c == '\x5c' then
      match rest with
      | [] => .error ⟨.unterminatedText, start⟩
      | 'u' :: digits => do
        match unit? digits with
        | none => .error ⟨.invalidUnicodeEscape, 'u' :: digits⟩
        | some n =>
          -- The two halves of a pair are one character; a half on its own is a character in its place.
          let half ← if isHighSurrogate n then secondHalf? (digits.drop 4) else .ok none
          match half with
          | some m =>
            let t ← readText start (digits.drop 10)
            return (t.cons (Char.ofNat (0x10000 + (n - 0xd800) * 0x400 + (m - 0xdc00)))).widen
              (drop_length_le digits 10 2)
          | none =>
            let t ← readText start (digits.drop 4)
            return (t.cons (unitChar n)).widen (drop_length_le digits 4 2)
      | e :: after =>
        match shortEscape? e with
        | none => .error ⟨.invalidEscape, c :: e :: after⟩
        | some d => do
          let t ← readText start after
          return (t.cons d).widen (Nat.le_add_right _ 2)
    else if c.toNat < 0x20 then .error ⟨.controlCharacter, c :: rest⟩
    else do
      let t ← readText start rest
      return (t.cons c).widen (Nat.le_succ _)
termination_by (cs.length, 0)
decreasing_by all_goals simp only [List.length_drop, List.length_cons]; omega

/-- Read a word with a fixed meaning. -/
def readWord? (word : String) (value : Value) (cs : List Char) : Option (Taken Value cs.length) :=
  let rest := cs.drop word.length
  if h : word.toList.isPrefixOf cs ∧ rest.length < cs.length then some ⟨value, rest, h.2⟩ else none

/-- The words that stand for values. -/
def words : List (String × Value) := [
  ("null", .null), ("true", .bool true), ("false", .bool false), ("NaN", .float .nan),
  ("Infinity", .float (.infinite false)), ("-Infinity", .float (.infinite true))]

/-- The integer part of a number: a zero, or digits that start with another digit. -/
def integerDigits : List Char → List Char
  | [] => []
  | c :: rest => if c == '0' then ['0'] else (c :: rest).takeWhile Char.isDigit

/-- The digits after a decimal point, if there is a point with a digit after it. -/
def fractionDigits : List Char → List Char
  | '.' :: rest => rest.takeWhile Char.isDigit
  | _ => []

/-- The sign and the digits of an exponent. -/
structure Exponent where
  negative : Bool
  signed : Bool
  digits : List Char

/-- The exponent at the front of a text, if there is one with a digit. -/
def exponent? : List Char → Option Exponent
  | c :: rest =>
    if c == 'e' || c == 'E' then
      let (negative, signed, body) :=
        match rest with
        | '-' :: body => (true, true, body)
        | '+' :: body => (false, true, body)
        | _ => (false, false, rest)
      match body.takeWhile Char.isDigit with
      | [] => none
      | digits => some ⟨negative, signed, digits⟩
    else none
  | [] => none

/-- The number that digits stand for. -/
def digitsValue (digits : List Char) : Nat := digits.foldl (fun n d => 10 * n + (d.toNat - 48)) 0

/-- Read a number. -/
def readNumber? (cs : List Char) : Option (Taken Value cs.length) :=
  let negative := cs.head? == some '-'
  let body := if negative then cs.drop 1 else cs
  let whole := integerDigits body
  let afterWhole := body.drop whole.length
  let fraction := fractionDigits afterWhole
  let afterFraction := if fraction.isEmpty then afterWhole else afterWhole.drop (fraction.length + 1)
  let sign (n : Nat) : Int := if negative then -(n : Int) else n
  let finish (value : Value) (rest : List Char) : Option (Taken Value cs.length) :=
    if h : rest.length < cs.length then some ⟨value, rest, h⟩ else none
  if whole.isEmpty then none
  else
    match exponent? afterFraction with
    | some e =>
      let power : Int := if e.negative then -(digitsValue e.digits : Int) else digitsValue e.digits
      let decimal : Decimal := ⟨digitsValue (whole ++ fraction), power - fraction.length⟩
      finish (.float (.ofDecimal negative decimal))
        (afterFraction.drop (e.digits.length + if e.signed then 2 else 1))
    | none =>
      if fraction.isEmpty then finish (.int (sign (digitsValue whole))) afterFraction
      else
        let decimal : Decimal := ⟨digitsValue (whole ++ fraction), -(fraction.length : Int)⟩
        finish (.float (.ofDecimal negative decimal)) afterFraction

/-- Read a value that is neither a text nor a collection. -/
def readScalar (cs : List Char) : Except Failure (Taken Value cs.length) :=
  match words.findSome? fun w => readWord? w.1 w.2 cs with
  | some t => .ok t
  | none =>
    match readNumber? cs with
    | some t => .ok t
    | none => .error ⟨.expectingValue, cs⟩

/-- Read a name in double quotes. -/
def readName (cs : List Char) : Except Failure (Taken Value cs.length) :=
  match cs with
  | [] => .error ⟨.expectingName, []⟩
  | c :: rest =>
    if c == '\x22' then do
      let t ← readText (c :: rest) rest
      return ⟨.str (.ofList t.value), t.rest, Nat.lt_succ_of_lt t.shorter⟩
    else .error ⟨.expectingName, c :: rest⟩

/-- Read a colon with blanks around it. -/
def readColon (cs : List Char) : Except Failure { rest : List Char // rest.length ≤ cs.length } :=
  match h : skipBlanks cs with
  | [] => .error ⟨.expectingColon, []⟩
  | c :: rest =>
    if c == ':' then
      .ok ⟨skipBlanks rest, by
        have h₁ := skipBlanks_length_le cs
        have h₂ := skipBlanks_length_le rest
        rw [h, List.length_cons] at h₁
        omega⟩
    else .error ⟨.expectingColon, c :: rest⟩

mutual

/-- Read a value that starts here. -/
def readValue (cs : List Char) : Except Failure (Taken Value cs.length) :=
  match cs with
  | [] => .error ⟨.expectingValue, []⟩
  | c :: rest =>
    have inside := skipBlanks_length_le rest
    if c == '\x22' then do
      let t ← readText (c :: rest) rest
      return ⟨.str (.ofList t.value), t.rest, Nat.lt_succ_of_lt t.shorter⟩
    else if c == '[' then
      match h : skipBlanks rest with
      | ']' :: after => .ok ⟨.list [], after, by
          rw [h, List.length_cons] at inside
          simp only [List.length_cons]
          omega⟩
      | _ => do
        let t ← readItems (skipBlanks rest)
        return ⟨.list t.value, t.rest, by
          have := t.shorter
          simp only [List.length_cons]
          omega⟩
    else if c == '\x7b' then
      match h : skipBlanks rest with
      | '\x7d' :: after => .ok ⟨.map [], after, by
          rw [h, List.length_cons] at inside
          simp only [List.length_cons]
          omega⟩
      | _ => do
        let t ← readMembers (skipBlanks rest)
        return ⟨.map (Dictionary.ofEntries t.value), t.rest, by
          have := t.shorter
          simp only [List.length_cons]
          omega⟩
    else readScalar (c :: rest)
termination_by (cs.length, 0)
decreasing_by all_goals first | omega | (simp only [List.length_cons]; omega)

/-- Read the items of a list up to its closing bracket. -/
def readItems (cs : List Char) : Except Failure (Taken (List Value) cs.length) := do
  let item ← readValue cs
  have shorter := item.shorter
  have blanks := skipBlanks_length_le item.rest
  match h : skipBlanks item.rest with
  | [] => .error ⟨.expectingComma, []⟩
  | c :: after =>
    have next := skipBlanks_length_le after
    have here : after.length < cs.length := by
      rw [h, List.length_cons] at blanks
      omega
    -- After a comma an item has to follow, so a bracket is not looked for.
    if c == ']' then return ⟨[item.value], after, here⟩
    else if c == ',' then
      let more ← readItems (skipBlanks after)
      return ⟨item.value :: more.value, more.rest, by
        have := more.shorter
        omega⟩
    else .error ⟨.expectingComma, c :: after⟩
termination_by (cs.length, 1)
decreasing_by all_goals omega

/-- Read the members of an object up to its closing brace. -/
def readMembers (cs : List Char) : Except Failure (Taken (List (Value × Value)) cs.length) := do
  let name ← readName cs
  let colon ← readColon name.rest
  have atValue := colon.property
  have afterName := name.shorter
  let value ← readValue colon.val
  have shorter := value.shorter
  have blanks := skipBlanks_length_le value.rest
  match h : skipBlanks value.rest with
  | [] => .error ⟨.expectingComma, []⟩
  | c :: after =>
    have next := skipBlanks_length_le after
    have here : after.length < cs.length := by
      rw [h, List.length_cons] at blanks
      omega
    if c == '\x7d' then return ⟨[(name.value, value.value)], after, here⟩
    else if c == ',' then
      let more ← readMembers (skipBlanks after)
      return ⟨(name.value, value.value) :: more.value, more.rest, by
        have := more.shorter
        omega⟩
    else .error ⟨.expectingComma, c :: after⟩
termination_by (cs.length, 1)
decreasing_by all_goals omega

end

/-- Read a whole text. -/
def readAll (cs : List Char) : Except Failure Value := do
  if cs.head? == some '\ufeff' then .error ⟨.byteOrderMark, cs⟩
  else
    let t ← readValue (skipBlanks cs)
    match skipBlanks t.rest with
    | [] => return t.value
    | rest => .error ⟨.extraData, rest⟩

/-- The value that a JSON text stands for, or the message that says why it stands for none. -/
def parse (text : String) : Except String Value :=
  (readAll text.toList).mapError (·.message text.toList)

end ClientGen.Document.Json
