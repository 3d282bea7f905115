/-!
# Base64

Bytes written with 64 characters, six bits each. The reader passes over characters that are not among
the 64, and stops where padding completes a group of four.
-/

namespace ClientGen.Text.Base64

/-- The six bits that a character stands for. -/
def bits? (c : Char) : Option Nat :=
  if 'A' ≤ c ∧ c ≤ 'Z' then some (c.toNat - 65)
  else if 'a' ≤ c ∧ c ≤ 'z' then some (c.toNat - 71)
  else if c.isDigit then some (c.toNat + 4)
  else if c == '+' then some 62
  else if c == '/' then some 63
  else none

/-- Read on after `count` characters of a group of four, `held` being the bits that are not yet part of a
byte and `pads` the number of padding characters just before. -/
def decodeFrom (count held pads : Nat) : List Char → Option (List UInt8)
  | [] => if count == 0 then some [] else none
  | c :: rest =>
    if c == '=' then
      if count < 2 then decodeFrom count held pads rest
      else if 4 ≤ count + pads + 1 then some []
      else decodeFrom count held (pads + 1) rest
    else
      match bits? c with
      | none => decodeFrom count held pads rest
      | some v =>
        let bits := held * 64 + v
        match count with
        | 0 => decodeFrom 1 bits 0 rest
        | 1 => (decodeFrom 2 (bits % 16) 0 rest).map (UInt8.ofNat (bits / 16) :: ·)
        | 2 => (decodeFrom 3 (bits % 4) 0 rest).map (UInt8.ofNat (bits / 4) :: ·)
        | _ => (decodeFrom 0 0 0 rest).map (UInt8.ofNat bits :: ·)

/-- The bytes that a text stands for; an incomplete group stands for none. -/
def decode? (cs : List Char) : Option (List UInt8) := decodeFrom 0 0 0 cs

end ClientGen.Text.Base64
