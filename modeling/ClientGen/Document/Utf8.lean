import ClientGen.Text.Quoted

/-!
# UTF-8

Bytes as characters. A text that is not UTF-8 is refused at the first bytes that start no character: the
failure names them and says what is wrong, so that it can be told to whoever wrote the file.
-/

namespace ClientGen.Document.Utf8

/-- What is wrong with the bytes at some place. -/
inductive Flaw where
  | invalidStart
  | invalidContinuation
  | endOfData
  deriving DecidableEq, Repr

/-- Bytes that start no character: `count` of them at `position`, the first being `byte`. -/
structure Failure where
  flaw : Flaw
  byte : UInt8
  position : Nat
  count : Nat
  deriving DecidableEq, Repr

/-- The reason in words. -/
def Flaw.text : Flaw → String
  | .invalidStart => "invalid start byte"
  | .invalidContinuation => "invalid continuation byte"
  | .endOfData => "unexpected end of data"

/-- What is told about bytes that are not UTF-8. -/
def Failure.message (f : Failure) : String :=
  let place :=
    if f.count == 1 then
      "byte 0x" ++ .ofList (Text.hexDigits 2 f.byte.toNat) ++ " in position " ++ toString f.position
    else "bytes in position " ++ toString f.position ++ "-" ++ toString (f.position + f.count - 1)
  "'utf-8' codec can't decode " ++ place ++ ": " ++ f.flaw.text

/-- A byte that continues a character. -/
def isContinuation (b : UInt8) : Bool := 0x80 ≤ b && b < 0xc0

/-- The number of bytes of the character that starts with this byte. -/
def width? (b : UInt8) : Option Nat :=
  if b < 0x80 then some 1
  else if b < 0xc2 then none
  else if b < 0xe0 then some 2
  else if b < 0xf0 then some 3
  else if b < 0xf5 then some 4
  else none

/-- May `next` follow the first byte `lead`? Overlong forms, surrogates and numbers past the last
character are refused here. -/
def mayFollow (lead next : UInt8) : Bool :=
  isContinuation next
    && !(lead == 0xe0 && next < 0xa0) && !(lead == 0xed && 0xa0 ≤ next)
    && !(lead == 0xf0 && next < 0x90) && !(lead == 0xf4 && 0x90 ≤ next)

/-- The number of bytes that are a good start of a character of `width` bytes. -/
def goodBytes (width : Nat) (lead : UInt8) (rest : List UInt8) : Nat :=
  match rest.take (width - 1) with
  | [] => 1
  | next :: more => if mayFollow lead next then 2 + (more.takeWhile isContinuation).length else 1

/-- The number that the free bits of the first byte can hold, in a character of `width` bytes. -/
def leadRange : (width : Nat) → Nat
  | 1 => 128
  | 2 => 32
  | 3 => 16
  | _ => 8

/-- The number that a character's bytes stand for. -/
def codePoint (width : Nat) (lead : UInt8) (rest : List UInt8) : Nat :=
  (rest.take (width - 1)).foldl (fun n b => n * 64 + b.toNat % 64) (lead.toNat % leadRange width)

/-- The first character of a text and its number of bytes. -/
def decodeOne (position : Nat) (lead : UInt8) (rest : List UInt8) : Except Failure (Char × Nat) :=
  match width? lead with
  | none => .error ⟨.invalidStart, lead, position, 1⟩
  | some width =>
    let good := goodBytes width lead rest
    if good == width then .ok (Char.ofNat (codePoint width lead rest), width)
    else
      let flaw := if good == rest.length + 1 then Flaw.endOfData else .invalidContinuation
      .error ⟨flaw, lead, position, good⟩

/-- The characters of a text. A character takes at least one byte, so the number of bytes bounds the
number of steps, `fuel`. -/
def decodeFrom : (fuel : Nat) → (position : Nat) → List UInt8 → Except Failure (List Char)
  | _, _, [] => .ok []
  | 0, _, _ => .ok []
  | fuel + 1, position, lead :: rest => do
    let (c, width) ← decodeOne position lead rest
    let more ← decodeFrom fuel (position + width) (rest.drop (width - 1))
    return c :: more

/-- The characters that bytes stand for. -/
def decode (bytes : List UInt8) : Except Failure (List Char) := decodeFrom bytes.length 0 bytes

end ClientGen.Document.Utf8
