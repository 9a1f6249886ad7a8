import CCompletion.Text.Class

/-!
The MD5 digest of a byte sequence: 64 rounds over every block of 16 little-endian words.
-/

namespace CCompletion.Digest

/-- The four words that the rounds transform. -/
structure Words where
  a : UInt32
  b : UInt32
  c : UInt32
  d : UInt32

def Words.start : Words := ⟨0x67452301, 0xefcdab89, 0x98badcfe, 0x10325476⟩

def Words.add (x y : Words) : Words := ⟨x.a + y.a, x.b + y.b, x.c + y.c, x.d + y.d⟩

/-- The whole part of 2^32 times the sine of 1 to 64, its sign left out. -/
def constants : List UInt32 :=
  [0xd76aa478, 0xe8c7b756, 0x242070db, 0xc1bdceee, 0xf57c0faf, 0x4787c62a, 0xa8304613, 0xfd469501,
   0x698098d8, 0x8b44f7af, 0xffff5bb1, 0x895cd7be, 0x6b901122, 0xfd987193, 0xa679438e, 0x49b40821,
   0xf61e2562, 0xc040b340, 0x265e5a51, 0xe9b6c7aa, 0xd62f105d, 0x02441453, 0xd8a1e681, 0xe7d3fbc8,
   0x21e1cde6, 0xc33707d6, 0xf4d50d87, 0x455a14ed, 0xa9e3e905, 0xfcefa3f8, 0x676f02d9, 0x8d2a4c8a,
   0xfffa3942, 0x8771f681, 0x6d9d6122, 0xfde5380c, 0xa4beea44, 0x4bdecfa9, 0xf6bb4b60, 0xbebfbc70,
   0x289b7ec6, 0xeaa127fa, 0xd4ef3085, 0x04881d05, 0xd9d4d039, 0xe6db99e5, 0x1fa27cf8, 0xc4ac5665,
   0xf4292244, 0x432aff97, 0xab9423a7, 0xfc93a039, 0x655b59c3, 0x8f0ccc92, 0xffeff47d, 0x85845dd1,
   0x6fa87e4f, 0xfe2ce6e0, 0xa3014314, 0x4e0811a1, 0xf7537e82, 0xbd3af235, 0x2ad7d2bb, 0xeb86d391]

/-- By how much a round turns its sum: four amounts for each quarter of the rounds, taken in turn. -/
def turn (round : Nat) : UInt32 :=
  let amounts : List UInt32 :=
    match round / 16 with
    | 0 => [7, 12, 17, 22]
    | 1 => [5, 9, 14, 20]
    | 2 => [4, 11, 16, 23]
    | _ => [6, 10, 15, 21]
  amounts.getD (round % 4) 0

def mix (round : Nat) (w : Words) : UInt32 :=
  match round / 16 with
  | 0 => (w.b &&& w.c) ||| (~~~w.b &&& w.d)
  | 1 => (w.d &&& w.b) ||| (~~~w.d &&& w.c)
  | 2 => w.b ^^^ w.c ^^^ w.d
  | _ => w.c ^^^ (w.b ||| ~~~w.d)

/-- Which word of the block a round reads. -/
def wordIndex (round : Nat) : Nat :=
  match round / 16 with
  | 0 => round
  | 1 => (5 * round + 1) % 16
  | 2 => (3 * round + 5) % 16
  | _ => (7 * round) % 16

def rotateLeft (x k : UInt32) : UInt32 := (x <<< k) ||| (x >>> (32 - k))

def round (block : List UInt32) (w : Words) (i : Nat) : Words :=
  let sum := w.a + mix i w + constants.getD i 0 + block.getD (wordIndex i) 0
  ⟨w.d, w.b + rotateLeft sum (turn i), w.b, w.c⟩

def absorb (w : Words) (block : List UInt32) : Words := w.add ((List.range 64).foldl (round block) w)

/-- The bytes of a word or a length, the lowest first. -/
def littleEndian (count n : Nat) : List UInt8 := (List.range count).map fun i => UInt8.ofNat (n >>> (8 * i))

def wordOf (bytes : List UInt8) : UInt32 :=
  UInt32.ofNat (bytes.foldr (fun b acc => acc * 256 + b.toNat) 0)

/-- The bytes with a mark, zeros up to a whole number of blocks and the length in bits at their end. -/
def padded (bytes : List UInt8) : List UInt8 :=
  bytes ++ 0x80 :: List.replicate ((119 - bytes.length % 64) % 64) 0 ++
    littleEndian 8 (8 * bytes.length % 0x10000000000000000)

/-- The first `n` groups of `size` members. -/
def groups {α : Type} (size : Nat) : Nat → List α → List (List α)
  | 0, _ => []
  | n + 1, xs => xs.take size :: groups size n (xs.drop size)

def md5 (bytes : List UInt8) : List UInt8 :=
  let message := padded bytes
  let words := (groups 4 (message.length / 4) message).map wordOf
  let w := (groups 16 (words.length / 16) words).foldl absorb .start
  [w.a, w.b, w.c, w.d].flatMap fun x => littleEndian 4 x.toNat

/-- Two lowercase hexadecimal digits for each byte. -/
def hexText (bytes : List UInt8) : Text := bytes.flatMap fun b => [hexDigit (b.toNat / 16), hexDigit (b.toNat % 16)]

end CCompletion.Digest
