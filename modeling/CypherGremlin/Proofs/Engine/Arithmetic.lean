import CypherGremlin.Number.Decimal
import CypherGremlin.Text.Basic

/-!
# Numbers that an engine computes with

The translation only reads, compares and prints numbers.  An engine also orders them, adds them up,
divides a sum by a count and converts them, and this module says how.  As in `Number.Binary64` all
rules are exact arithmetic on the significand and the exponent, rounded once at the end.

* `Binary64.compare?` is the order of values: not-a-number is comparable with nothing.
* `Binary64.rank` embeds the total order of bit patterns, which sorting uses.
* `Binary64.add` and `Binary64.divide` round to the nearest number.
* `Binary64.truncated`, `Int64.ofText?` and `Binary64.ofLooseText?` are the conversions of Cypher.
-/

namespace CypherGremlin

namespace Binary64

/-! ## Orders -/

/-- The position of a number on the line of values, in steps of neighbouring patterns.  Both zeros
are at the origin. -/
def position (x : Binary64) : Int :=
  if x.negative then -(x.unsigned : Int) else x.unsigned

def compare? (x y : Binary64) : Option Ordering :=
  if x.isNaN || y.isNaN then none else some (compare x.position y.position)

/-- The place of a pattern in the total order of patterns: negative zero comes before positive zero,
and not-a-number is at either end. -/
def rank (x : Binary64) : Int :=
  if x.negative then -(x.unsigned : Int) - 1 else x.unsigned

/-! ## Sums and quotients -/

/-- The exponent of the unit in which every finite number is whole. -/
def unitExponent : Nat := 1074

/-- A finite number in units of `2 ^ (-1074)`. -/
def units (x : Binary64) : Int :=
  let m : Int := x.magnitude.significand * Nat.pow 2 (x.magnitude.exponent + unitExponent).toNat
  if x.negative then -m else m

/-- The number nearest to a whole number of units that is not zero. -/
def ofUnits (n : Int) : Binary64 :=
  let x := ofRatio n.natAbs (Nat.pow 2 unitExponent)
  if n < 0 then x.negate else x

/-- The sum of two numbers.  Numbers that cancel give positive zero; infinities of both signs give
not-a-number. -/
def add (x y : Binary64) : Binary64 :=
  if x.isNaN || y.isNaN then nan
  else if !x.isFinite && !y.isFinite then if x.negative == y.negative then x else nan
  else if !x.isFinite then x
  else if !y.isFinite then y
  else if x.units + y.units = 0 then
    if x.isZero && x.negative && y.negative then x else zero
  else ofUnits (x.units + y.units)

/-- The quotient by a positive finite number. -/
def divide (x y : Binary64) : Binary64 :=
  if x.isNaN then nan
  else if !x.isFinite || x.isZero then x
  else if x.negative then (x.divMagnitude y).negate
  else x.divMagnitude y

/-- The whole part of a number as a 64-bit integer.  What is out of range is cut off, and
not-a-number gives zero. -/
def truncated (x : Binary64) : Int64 :=
  let least := Int64.minValue.toInt
  let greatest := Int64.maxValue.toInt
  if x.isNaN then 0
  else if !x.isFinite then if x.negative then Int64.minValue else Int64.maxValue
  else
    let (num, den) := x.magnitude.ratio
    let whole : Int := (num / den : Nat)
    Int64.ofInt (max least (min greatest (if x.negative then -whole else whole)))

open Decimal in
/-- The number that a text stands for, where the names of the other patterns are read in any case.
-/
def ofLooseText? (text : String) : Option Binary64 :=
  let (negative, unsigned) := sign text.toList
  let name := (String.ofList unsigned).toLower
  if name == "nan" then some (if negative then nan.negate else nan)
  else if name == "inf" || name == "infinity" then some (infinity negative)
  else ofText? text

end Binary64

open Decimal in
/-- The 64-bit integer that a text stands for: perhaps a sign, then digits. -/
def Int64.ofText? (text : String) : Option Int64 :=
  let (negative, digits) := sign text.toList
  if digits.isEmpty || !digits.all Char.isDigit then none
  else
    let n : Int := if negative then -(digitsValue digits : Int) else digitsValue digits
    if Int64.minValue.toInt ≤ n ∧ n ≤ Int64.maxValue.toInt then some (Int64.ofInt n) else none

end CypherGremlin
