import ClientGen.Text.Quoted

/-!
# MD5 digests

The MD5 message digest of a sequence of bytes. The additive constants are the first 32 bits of the
fractional parts of the sines of 1, 2, …, 64.
-/

namespace ClientGen.Md5

/-- The additive constants of the 64 steps. -/
def constants : Array UInt32 := #[
  0xd76aa478, 0xe8c7b756, 0x242070db, 0xc1bdceee, 0xf57c0faf, 0x4787c62a, 0xa8304613, 0xfd469501,
  0x698098d8, 0x8b44f7af, 0xffff5bb1, 0x895cd7be, 0x6b901122, 0xfd987193, 0xa679438e, 0x49b40821,
  0xf61e2562, 0xc040b340, 0x265e5a51, 0xe9b6c7aa, 0xd62f105d, 0x02441453, 0xd8a1e681, 0xe7d3fbc8,
  0x21e1cde6, 0xc33707d6, 0xf4d50d87, 0x455a14ed, 0xa9e3e905, 0xfcefa3f8, 0x676f02d9, 0x8d2a4c8a,
  0xfffa3942, 0x8771f681, 0x6d9d6122, 0xfde5380c, 0xa4beea44, 0x4bdecfa9, 0xf6bb4b60, 0xbebfbc70,
  0x289b7ec6, 0xeaa127fa, 0xd4ef3085, 0x04881d05, 0xd9d4d039, 0xe6db99e5, 0x1fa27cf8, 0xc4ac5665,
  0xf4292244, 0x432aff97, 0xab9423a7, 0xfc93a039, 0x655b59c3, 0x8f0ccc92, 0xffeff47d, 0x85845dd1,
  0x6fa87e4f, 0xfe2ce6e0, 0xa3014314, 0x4e0811a1, 0xf7537e82, 0xbd3af235, 0x2ad7d2bb, 0xeb86d391]

/-- The rotations of the four rounds, which repeat every four steps. -/
def rotations : Array UInt32 := #[7, 12, 17, 22, 5, 9, 14, 20, 4, 11, 16, 23, 6, 10, 15, 21]

/-- The state between blocks. -/
structure State where
  a : UInt32
  b : UInt32
  c : UInt32
  d : UInt32

/-- The state before the first block. -/
def State.start : State := ⟨0x67452301, 0xefcdab89, 0x98badcfe, 0x10325476⟩

/-- Rotate a word to the left by less than its width. -/
def rotate (x n : UInt32) : UInt32 := (x <<< n) ||| (x >>> (32 - n))

/-- Step `i` of the compression of a block of 16 words. -/
def step (words : Array UInt32) (s : State) (i : Nat) : State :=
  let round := i / 16
  let mixed :=
    match round with
    | 0 => (s.b &&& s.c) ||| (~~~s.b &&& s.d)
    | 1 => (s.d &&& s.b) ||| (~~~s.d &&& s.c)
    | 2 => s.b ^^^ s.c ^^^ s.d
    | _ => s.c ^^^ (s.b ||| ~~~s.d)
  let place :=
    match round with
    | 0 => i
    | 1 => (5 * i + 1) % 16
    | 2 => (3 * i + 5) % 16
    | _ => (7 * i) % 16
  let sum := mixed + s.a + constants.getD i 0 + words.getD place 0
  ⟨s.d, s.b + rotate sum (rotations.getD (4 * round + i % 4) 0), s.b, s.c⟩

/-- Take in a block. -/
def compress (s : State) (words : Array UInt32) : State :=
  let t := (List.range 64).foldl (step words) s
  ⟨s.a + t.a, s.b + t.b, s.c + t.c, s.d + t.d⟩

/-- The value of bytes with the least significant first. -/
def littleEndian (bytes : List UInt8) : Nat := bytes.foldr (fun b n => b.toNat + 256 * n) 0

/-- The `count` low bytes of a number, the least significant first. -/
def bytesOf : (count : Nat) → Nat → List UInt8
  | 0, _ => []
  | count + 1, n => UInt8.ofNat n :: bytesOf count (n / 256)

/-- Cut a list into parts of `size` elements, at most `count` of them. -/
def parts {α : Type} (size : Nat) : (count : Nat) → List α → List (List α)
  | 0, _ => []
  | count + 1, xs => xs.take size :: parts size count (xs.drop size)

/-- The message with its padding: a one bit, zeros, and the length in bits. -/
def pad (message : List UInt8) : List UInt8 :=
  let zeros := (119 - message.length % 64) % 64
  message ++ 0x80 :: List.replicate zeros 0 ++ bytesOf 8 (8 * message.length)

/-- The digest of a message, 16 bytes. -/
def digest (message : List UInt8) : List UInt8 :=
  let padded := pad message
  let blocks := (parts 64 (padded.length / 64) padded).map fun block =>
    ((parts 4 16 block).map fun word => UInt32.ofNat (littleEndian word)).toArray
  let s := blocks.foldl compress .start
  [s.a, s.b, s.c, s.d].flatMap fun word => bytesOf 4 word.toNat

/-- The digest of a text in UTF-8, as hexadecimal digits. -/
def hexDigest (text : String) : List Char :=
  (digest text.toUTF8.toList).flatMap fun b => Text.hexDigits 2 b.toNat

end ClientGen.Md5
