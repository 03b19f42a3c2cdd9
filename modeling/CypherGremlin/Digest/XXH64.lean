/-!
# The 64-bit xxHash digest

A fast digest of a sequence of bytes.  The bytes are read as little-endian words of 64 bits.  Groups
of four words go round four accumulators; the words and bytes that are left over are mixed in one by
one.  All arithmetic is modulo 2^64.
-/

namespace CypherGremlin

namespace XXH64

/-- The first multiplier. -/
def prime1 : UInt64 := 0x9E3779B185EBCA87

/-- The second multiplier. -/
def prime2 : UInt64 := 0xC2B2AE3D27D4EB4F

/-- The third multiplier. -/
def prime3 : UInt64 := 0x165667B19E3779F9

/-- The fourth multiplier. -/
def prime4 : UInt64 := 0x85EBCA77C2B2AE63

/-- The fifth multiplier. -/
def prime5 : UInt64 := 0x27D4EB2F165667C5

def rotate (x : UInt64) (places : UInt64) : UInt64 := (x <<< places) ||| (x >>> (64 - places))

/-- The number with the given bytes, the least significant first. -/
def littleEndian : List UInt8 → UInt64
  | [] => 0
  | b :: rest => b.toUInt64 ||| (littleEndian rest <<< 8)

/-- The words of 64 bits that the bytes consist of, and the bytes after the last word. -/
def words : List UInt8 → List UInt64 × List UInt8
  | a :: b :: c :: d :: e :: f :: g :: h :: rest =>
    let (ws, tail) := words rest
    (littleEndian [a, b, c, d, e, f, g, h] :: ws, tail)
  | tail => ([], tail)

def round (accumulator word : UInt64) : UInt64 := rotate (accumulator + word * prime2) 31 * prime1

/-- The four accumulators. -/
structure Lanes where
  first : UInt64
  second : UInt64
  third : UInt64
  fourth : UInt64

/-- The accumulators before any word. -/
def Lanes.start (seed : UInt64) : Lanes :=
  ⟨seed + prime1 + prime2, seed + prime2, seed, seed - prime1⟩

/-- Takes groups of four words into the accumulators.  The words after the last group are left over.
-/
def Lanes.absorb (lanes : Lanes) : List UInt64 → Lanes × List UInt64
  | a :: b :: c :: d :: rest =>
    Lanes.absorb
      ⟨round lanes.first a, round lanes.second b, round lanes.third c, round lanes.fourth d⟩ rest
  | rest => (lanes, rest)

def merge (digest accumulator : UInt64) : UInt64 :=
  (digest ^^^ round 0 accumulator) * prime1 + prime4

def Lanes.digest (lanes : Lanes) : UInt64 :=
  let mixed := rotate lanes.first 1 + rotate lanes.second 7 + rotate lanes.third 12 +
    rotate lanes.fourth 18
  [lanes.first, lanes.second, lanes.third, lanes.fourth].foldl merge mixed

def mixWord (digest word : UInt64) : UInt64 := rotate (digest ^^^ round 0 word) 27 * prime1 + prime4

def mixHalf (digest half : UInt64) : UInt64 :=
  rotate (digest ^^^ (half * prime1)) 23 * prime2 + prime3

def mixByte (digest : UInt64) (byte : UInt8) : UInt64 :=
  rotate (digest ^^^ (byte.toUInt64 * prime5)) 11 * prime1

/-- Takes fewer than eight left-over bytes into the digest, the first four of them together. -/
def mixTail (digest : UInt64) : List UInt8 → UInt64
  | a :: b :: c :: d :: rest => rest.foldl mixByte (mixHalf digest (littleEndian [a, b, c, d]))
  | rest => rest.foldl mixByte digest

/-- Spreads every bit over the whole digest. -/
def avalanche (digest : UInt64) : UInt64 :=
  let a := (digest ^^^ (digest >>> 33)) * prime2
  let b := (a ^^^ (a >>> 29)) * prime3
  b ^^^ (b >>> 32)

def hash (seed : UInt64) (bytes : List UInt8) : UInt64 :=
  let (ws, tail) := words bytes
  let (lanes, left) := (Lanes.start seed).absorb ws
  let start := if bytes.length < 32 then seed + prime5 else lanes.digest
  avalanche (mixTail (left.foldl mixWord (start + UInt64.ofNat bytes.length)) tail)

end XXH64

end CypherGremlin
