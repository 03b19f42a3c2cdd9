import CypherGremlin.Number.Shortest

/-!
# Writing a number

A `Layout` is the set of decisions that one text format makes about numbers: where positional
notation ends, whether a positive exponent carries a sign, and which of two equally near decimals is
written.  `Layout.write` is the one function that lays out a selected decimal.

Every written number holds a point or an exponent, so that it never reads as an integer.
-/

namespace CypherGremlin

/-- How a text format writes numbers. -/
structure Layout where
  plainFrom : Int
  /-- The greatest exponent of a leading digit that is written positionally. -/
  plainTo : Int
  signedExponent : Bool
  /-- Which of two equally near decimals is written. -/
  tie : Tie

namespace Layout

/-- Ten to the given exponent's digits with the point set: behind the digits, inside them or before
them. -/
def positional (digits : List Char) (point : Int) : List Char :=
  if point ≤ 0 then
    '0' :: '.' :: List.replicate (-point).toNat '0' ++ digits
  else if point < digits.length then
    digits.take point.toNat ++ '.' :: digits.drop point.toNat
  else
    digits ++ List.replicate (point.toNat - digits.length) '0' ++ ['.', '0']

def scientific (signed : Bool) (digits : List Char) (exponent : Int) : List Char :=
  let head := match digits with
    | [] => []
    | [d] => [d]
    | d :: rest => d :: '.' :: rest
  let sign := if exponent < 0 then ['-'] else if signed then ['+'] else []
  head ++ 'e' :: sign ++ Nat.toDigits 10 exponent.natAbs

def decimal (layout : Layout) (d : Decimal) : List Char :=
  let digits := Nat.toDigits 10 d.digits
  let exponent := d.exponent + digits.length - 1
  if layout.plainFrom ≤ exponent ∧ exponent ≤ layout.plainTo then positional digits (exponent + 1)
  else scientific layout.signedExponent digits exponent

/-- The text of a finite number; the other patterns have names instead. -/
def write (layout : Layout) (x : Binary64) : String :=
  if x.isNaN then "NaN"
  else
    let sign := if x.negative then "-" else ""
    if !x.isFinite then sign ++ "inf"
    else if x.isZero then sign ++ "0.0"
    else sign ++ String.ofList (layout.decimal (x.magnitude.shortest layout.tie))

end Layout

/-- Numbers in program text, column names and diagnostics: positional from `0.0001` up to sixteen
digits before the point, a tie going up. -/
def Layout.plain : Layout where
  plainFrom := -4
  plainTo := 15
  signedExponent := false
  tie := .up

/-- Numbers in JSON text: positional from `0.00001`, a sign on every exponent, a tie going to the
even digit. -/
def Layout.json : Layout where
  plainFrom := -5
  plainTo := 15
  signedExponent := true
  tie := .toEven

/-- The text of a number in program text, column names and diagnostics. -/
def Binary64.text (x : Binary64) : String := Layout.plain.write x

end CypherGremlin
