/-!
# Double-precision numbers by their bits

A query, a traversal and a row can hold a 64-bit floating-point number.  Nothing in this library
computes with such a number: it is read from decimal text, compared, printed and fed to a
fingerprint.  So it is kept as its bit pattern, `Binary64`, and every rule about it is stated in
exact arithmetic on naturals.

* `Binary64.magnitude` splits a finite number into an integer significand and a power of two.
* `Binary64.ofRatio` rounds a non-negative ratio to the nearest number, a tie to the even
  significand.
* `Binary64.equal` is numerical equality: not-a-number equals nothing and the two zeros are equal.
  Bit equality is the decidable `=` of the structure.
-/

namespace CypherGremlin

/-- A double-precision number, held as its bit pattern: a sign bit, eleven exponent bits and
fifty-two fraction bits. -/
structure Binary64 where
  bits : UInt64
deriving DecidableEq, Repr, Inhabited

namespace Binary64

/-! ## The parts of a bit pattern -/

def signBit : Nat := Nat.pow 2 63

/-- The number of patterns with the same sign and exponent field. -/
def exponentBit : Nat := Nat.pow 2 52

/-- The pattern of positive infinity: the greatest exponent field, and no fraction. -/
def infinityPattern : Nat := 2047 * exponentBit

/-- The sign bit. -/
def negative (x : Binary64) : Bool :=
  signBit ≤ x.bits.toNat

/-- The pattern without its sign bit.  Among non-negative numbers this is an order embedding. -/
def unsigned (x : Binary64) : Nat :=
  x.bits.toNat % signBit

/-- The biased exponent, `0` for zero and the subnormals and `2047` for the non-finite patterns. -/
def exponentField (x : Binary64) : Nat :=
  x.unsigned / exponentBit

def fraction (x : Binary64) : Nat :=
  x.unsigned % exponentBit

/-- A number proper: neither an infinity nor not-a-number. -/
def isFinite (x : Binary64) : Bool :=
  x.exponentField < 2047

/-- Not-a-number. -/
def isNaN (x : Binary64) : Bool :=
  x.exponentField == 2047 && x.fraction != 0

def isZero (x : Binary64) : Bool :=
  x.unsigned == 0

/-- Numerical equality: not-a-number equals nothing, itself included, and the two zeros are equal.
-/
def equal (x y : Binary64) : Bool :=
  !x.isNaN && !y.isNaN && (x.bits == y.bits || x.isZero && y.isZero)

/-- The absolute value of a finite number as `significand * 2 ^ exponent`. -/
structure Magnitude where
  significand : Nat
  exponent : Int
  /-- The number below lies half as far away as the number above: the significand is the least one
  of its exponent, and the exponent is not the least one of the format. -/
  narrowBelow : Bool

/-- The absolute value of a finite number.  The non-finite patterns have none; test for them first.
-/
def magnitude (x : Binary64) : Magnitude :=
  if x.exponentField = 0 then
    ⟨x.fraction, -1074, false⟩
  else
    ⟨exponentBit + x.fraction, (x.exponentField : Int) - 1075,
      x.fraction = 0 && 1 < x.exponentField⟩

/-! ## Building a pattern -/

/-- The pattern with the given sign and unsigned part. -/
def ofUnsigned (negative : Bool) (n : Nat) : Binary64 :=
  ⟨(n + if negative then signBit else 0).toUInt64⟩

def zero : Binary64 := ⟨0⟩

/-- Not-a-number, in its usual pattern. -/
def nan : Binary64 := ofUnsigned false (infinityPattern + exponentBit / 2)

def infinity (negative : Bool) : Binary64 := ofUnsigned negative infinityPattern

/-- The same number with the opposite sign. -/
def negate (x : Binary64) : Binary64 := ofUnsigned (!x.negative) x.unsigned

/-- A quotient rounded to the nearest integer, a half to the even neighbour. -/
def roundQuotient (num den : Nat) : Nat :=
  let floor := num / den
  let twice := 2 * (num % den)
  if twice < den then floor
  else if den < twice then floor + 1
  else floor + floor % 2

/-- The greatest `l` with `2 ^ l * den ≤ num`, for positive arguments. -/
def floorLog (num den : Nat) : Int :=
  let l : Int := (num.log2 : Int) - den.log2
  if den * Nat.pow 2 l.toNat ≤ num * Nat.pow 2 (-l).toNat then l else l - 1

/-- The number nearest to `num / den`, a tie going to the even significand; the infinity when the
ratio is too large.

The unit of the result is `2 ^ q`, where `q` is the exponent of the ratio's leading bit less
fifty-two, but never below `-1074`.  The ratio is rounded to a whole number `m` of units.
Consecutive patterns are consecutive numbers, so the pattern is `m` plus `2 ^ 52` for each step of
`q` above the least one, also when rounding carried `m` up to the next power of two. -/
def ofRatio (num den : Nat) : Binary64 :=
  if num = 0 then zero
  else
    let q := max (floorLog num den - 52) (-1074)
    let m := roundQuotient (num * Nat.pow 2 (-q).toNat) (den * Nat.pow 2 q.toNat)
    ofUnsigned false (min ((q + 1074).toNat * exponentBit + m) infinityPattern)

/-- The number nearest to a natural. -/
def ofNat (n : Nat) : Binary64 := ofRatio n 1

/-- The number nearest to an integer.  Zero is positive. -/
def ofInt (i : Int) : Binary64 :=
  if i < 0 then (ofNat i.natAbs).negate else ofNat i.natAbs

/-! ## Scaling by a power of ten -/

def Magnitude.ratio (a : Magnitude) : Nat × Nat :=
  (a.significand * Nat.pow 2 a.exponent.toNat, Nat.pow 2 (-a.exponent).toNat)

/-- The product of two absolute values, rounded. -/
def mulMagnitude (x y : Binary64) : Binary64 :=
  let (a, b) := x.magnitude.ratio
  let (c, d) := y.magnitude.ratio
  ofRatio (a * c) (b * d)

/-- The quotient of two absolute values, rounded. -/
def divMagnitude (x y : Binary64) : Binary64 :=
  let (a, b) := x.magnitude.ratio
  let (c, d) := y.magnitude.ratio
  ofRatio (a * d) (b * c)

/-- The greatest power of ten that is a number of the format has this exponent. -/
def maxPowerOfTen : Nat := 308

/-- The power of ten with the given exponent, rounded once. -/
def powerOfTen (e : Nat) : Binary64 := ofNat (Nat.pow 10 e)

/-- A non-negative number times ten to the given power; `none` when the result is too large.

The scale is applied as one multiplication or division by a rounded power of ten.  A power too small
for the format is reached by dividing by the greatest power of ten first. -/
def scale (x : Binary64) (e : Int) : Option Binary64 :=
  if x.isZero then some x
  else if (maxPowerOfTen : Int) < e then none
  else if 0 ≤ e then
    let y := x.mulMagnitude (powerOfTen e.toNat)
    if y.isFinite then some y else none
  else if -(maxPowerOfTen : Int) ≤ e then some (x.divMagnitude (powerOfTen e.natAbs))
  else scale (x.divMagnitude (powerOfTen maxPowerOfTen)) (e + maxPowerOfTen)
termination_by e.natAbs
decreasing_by simp [maxPowerOfTen] at *; omega

/-- The number written `significand * 10 ^ exponent`; `none` when it is too large.  The significand
is rounded before it is scaled, so a long significand can end one unit away from the nearest number.
-/
def ofDecimal (negative : Bool) (significand : Nat) (exponent : Int) : Option Binary64 :=
  (scale (ofNat significand) exponent).map fun x => if negative then x.negate else x

end Binary64

end CypherGremlin
