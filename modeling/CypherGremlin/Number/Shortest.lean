import CypherGremlin.Number.Binary64

/-!
# The shortest decimal of a number

Among the decimals that round to a given finite number, `Binary64.shortest` selects one with the
fewest digits, and of those the one nearest to the number.  The selection is a search: for one
digit, two digits and so on, it tests the two neighbours of the number on the decimal grid of that
many digits.  All comparisons are exact and on naturals (`Magnitude.admits`).

Two neighbours can be equally near.  Which of them is taken is up to the text that is being
written, so it is a parameter, `Tie`.
-/

namespace CypherGremlin

/-- A positive decimal, `digits * 10 ^ exponent`. -/
structure Decimal where
  digits : Nat
  exponent : Int
deriving DecidableEq, Repr

/-- Which of two equally near decimals is taken. -/
inductive Tie where
  | up
  | toEven
deriving DecidableEq, Repr

namespace Decimal

/-- The number of decimal digits of a natural, one for zero. -/
def length (n : Nat) : Nat := (Nat.toDigits 10 n).length

/-- The same decimal without trailing zeros.  At most `fuel` zeros are dropped. -/
def stripZeros : Nat → Decimal → Decimal
  | 0, d => d
  | fuel + 1, d =>
    if d.digits % 10 = 0 && d.digits != 0 then stripZeros fuel ⟨d.digits / 10, d.exponent + 1⟩ else
      d

end Decimal

namespace Binary64.Magnitude

/-- Twice the absolute value, its two rounding bounds and a unit of the grid `10 ^ exponent`, all
brought over one denominator.  The bounds lie halfway to the neighbouring numbers. -/
structure Scaled where
  unit : Nat
  low : Nat
  value : Nat
  high : Nat

/-- The absolute value and its rounding bounds measured on the grid `10 ^ exponent`. -/
def onGrid (a : Magnitude) (exponent : Int) : Scaled :=
  let factor := Nat.pow 2 (a.exponent - 2).toNat * Nat.pow 10 (-exponent).toNat
  let below := if a.narrowBelow then 1 else 2
  { unit := Nat.pow 2 (2 - a.exponent).toNat * Nat.pow 10 exponent.toNat
    low := (4 * a.significand - below) * factor
    value := 4 * a.significand * factor
    high := (4 * a.significand + 2) * factor }

/-- A decimal reads back as the number when it lies between the rounding bounds.  The bounds
themselves count exactly when the significand is even, because a tie rounds to even. -/
def admits (a : Magnitude) (d : Decimal) : Bool :=
  let g := a.onGrid d.exponent
  let x := d.digits * g.unit
  if a.significand % 2 = 0 then g.low ≤ x && x ≤ g.high else g.low < x && x < g.high

/-- The least `k` with the absolute value below `10 ^ k`, for a positive value. -/
def scale (a : Magnitude) : Int :=
  let (num, den) := a.ratio
  let k : Int := (Decimal.length num : Int) - Decimal.length den
  if den * Nat.pow 10 k.toNat ≤ num * Nat.pow 10 (-k).toNat then k + 1 else k

/-- The nearest of the two neighbours on the grid `10 ^ exponent` that read back, if one does. -/
def neighbour (a : Magnitude) (tie : Tie) (exponent : Int) : Option Decimal :=
  let g := a.onGrid exponent
  let floor := g.value / g.unit
  let lower : Decimal := ⟨floor, exponent⟩
  let upper : Decimal := ⟨floor + 1, exponent⟩
  match a.admits lower, a.admits upper with
  | false, false => none
  | true, false => some lower
  | false, true => some upper
  | true, true =>
    let twice := 2 * (g.value % g.unit)
    if twice < g.unit then some lower
    else if g.unit < twice then some upper
    else match tie with
      | .up => some upper
      | .toEven => some (if floor % 2 = 0 then lower else upper)

/-- The exact decimal value.  No number needs it, since seventeen digits always suffice, but it
makes the search total without a guess. -/
def exact (a : Magnitude) : Decimal :=
  if 0 ≤ a.exponent then ⟨a.significand * Nat.pow 2 a.exponent.toNat, 0⟩
  else ⟨a.significand * Nat.pow 5 a.exponent.natAbs, a.exponent⟩

/-- The shortest decimal that reads back, without trailing zeros. -/
def shortest (a : Magnitude) (tie : Tie) : Decimal :=
  let k := a.scale
  let found := (List.range 17).findSome? fun (n : Nat) => a.neighbour tie (k - (n + 1))
  (found.getD a.exact).stripZeros 400

end Binary64.Magnitude

end CypherGremlin
