import Lineage.Text.Hex
/-
  The MD5 digest of a string of bytes.

  The hasher takes bytes one at a time (`Hasher.push`) and works a block into its chain each time
  64 of them have come together, so feeding a string in pieces is the same as feeding it at once.
  `Hasher.finish` pads the rest with a one bit, zeros and the length in bits, and reads the chain
  out, lowest byte first.
-/

namespace Lineage.Md5

/-- The four words that a block is worked into. -/
structure Chain where
  a : UInt32
  b : UInt32
  c : UInt32
  d : UInt32
deriving DecidableEq, Repr

/-- The chain before the first block. -/
def Chain.initial : Chain := ⟨0x67452301, 0xefcdab89, 0x98badcfe, 0x10325476⟩

/-- One constant for each of the 64 steps: the fractional part of a sine, as a 32-bit fraction. -/
def constants : Array UInt32 :=
  #[
    0xd76aa478, 0xe8c7b756, 0x242070db, 0xc1bdceee, 0xf57c0faf, 0x4787c62a,
    0xa8304613, 0xfd469501, 0x698098d8, 0x8b44f7af, 0xffff5bb1, 0x895cd7be,
    0x6b901122, 0xfd987193, 0xa679438e, 0x49b40821, 0xf61e2562, 0xc040b340,
    0x265e5a51, 0xe9b6c7aa, 0xd62f105d, 0x02441453, 0xd8a1e681, 0xe7d3fbc8,
    0x21e1cde6, 0xc33707d6, 0xf4d50d87, 0x455a14ed, 0xa9e3e905, 0xfcefa3f8,
    0x676f02d9, 0x8d2a4c8a, 0xfffa3942, 0x8771f681, 0x6d9d6122, 0xfde5380c,
    0xa4beea44, 0x4bdecfa9, 0xf6bb4b60, 0xbebfbc70, 0x289b7ec6, 0xeaa127fa,
    0xd4ef3085, 0x04881d05, 0xd9d4d039, 0xe6db99e5, 0x1fa27cf8, 0xc4ac5665,
    0xf4292244, 0x432aff97, 0xab9423a7, 0xfc93a039, 0x655b59c3, 0x8f0ccc92,
    0xffeff47d, 0x85845dd1, 0x6fa87e4f, 0xfe2ce6e0, 0xa3014314, 0x4e0811a1,
    0xf7537e82, 0xbd3af235, 0x2ad7d2bb, 0xeb86d391]

/-- How far a step rotates. -/
def rotation (i : Nat) : UInt32 :=
  match i / 16, i % 4 with
  | 0, 0 => 7  | 0, 1 => 12 | 0, 2 => 17 | 0, _ => 22
  | 1, 0 => 5  | 1, 1 => 9  | 1, 2 => 14 | 1, _ => 20
  | 2, 0 => 4  | 2, 1 => 11 | 2, 2 => 16 | 2, _ => 23
  | _, 0 => 6  | _, 1 => 10 | _, 2 => 15 | _, _ => 21

/-- Rotates the bits of a word to the left, by an amount between 1 and 31. -/
def rotateLeft (x amount : UInt32) : UInt32 := (x <<< amount) ||| (x >>> (32 - amount))

/-- The word of the block that a step uses, and how the step mixes the other three words. -/
def mixing (i : Nat) (b c d : UInt32) : UInt32 × Nat :=
  match i / 16 with
  | 0 => ((b &&& c) ||| (~~~b &&& d), i)
  | 1 => ((d &&& b) ||| (~~~d &&& c), (5 * i + 1) % 16)
  | 2 => (b ^^^ c ^^^ d, (3 * i + 5) % 16)
  | _ => (c ^^^ (b ||| ~~~d), (7 * i) % 16)

/-- One step. -/
def step (words : Array UInt32) (s : Chain) (i : Nat) : Chain :=
  let (mixed, word) := mixing i s.b s.c s.d
  let sum := mixed + s.a + constants.getD i 0 + words.getD word 0
  ⟨s.d, s.b + rotateLeft sum (rotation i), s.b, s.c⟩

/-- The words of a block, lowest byte first. -/
def blockWords : List UInt8 → List UInt32
  | w :: x :: y :: z :: rest =>
    UInt32.ofNat (Text.ofLittleEndian [w, x, y, z]) :: blockWords rest
  | _ => []

/-- Works one block of 64 bytes into the chain. -/
def compress (s : Chain) (block : List UInt8) : Chain :=
  let words := (blockWords block).toArray
  let t := (List.range 64).foldl (step words) s
  ⟨s.a + t.a, s.b + t.b, s.c + t.c, s.d + t.d⟩

/-- A digest under way: the chain, the bytes of the block begun (last first), and how many bytes
have come so far. -/
structure Hasher where
  chain : Chain
  pending : List UInt8
  length : Nat
deriving DecidableEq, Repr

namespace Hasher

/-- No byte has come yet. -/
def start : Hasher := ⟨.initial, [], 0⟩

/-- Takes one byte. -/
def push (h : Hasher) (byte : UInt8) : Hasher :=
  let pending := byte :: h.pending
  if h.length % 64 = 63 then ⟨compress h.chain pending.reverse, [], h.length + 1⟩
  else ⟨h.chain, pending, h.length + 1⟩

/-- Takes a string of bytes. -/
def feed (h : Hasher) (bytes : List UInt8) : Hasher := bytes.foldl push h

/-- The bytes that fill the last block: a one bit, zeros, and the length in bits. -/
def padding (length : Nat) : List UInt8 :=
  0x80 :: List.replicate ((119 - length % 64) % 64) 0 ++ Text.littleEndian 8 (8 * length)

/-- The 16 bytes of the digest. -/
def finish (h : Hasher) : List UInt8 :=
  let c := (h.feed (padding h.length)).chain
  [c.a, c.b, c.c, c.d].flatMap fun w => Text.littleEndian 4 w.toNat

end Hasher

/-- The digest of a string of bytes. -/
def digest (bytes : List UInt8) : List UInt8 := (Hasher.start.feed bytes).finish

end Lineage.Md5
