import CypherGremlin.Number.Layout

/-!
# Reading a number

`Binary64.ofText?` reads the texts that `Binary64.text` writes, and any other decimal with a sign, a
fraction and an exponent.  The result is the nearest number, a tie going to the even significand.
-/

namespace CypherGremlin

namespace Decimal

def digitsValue (digits : List Char) : Nat :=
  digits.foldl (fun n c => n * 10 + (c.toNat - '0'.toNat)) 0

/-- A sign that may stand in front, and what follows it. -/
def sign : List Char → Bool × List Char
  | '-' :: rest => (true, rest)
  | '+' :: rest => (false, rest)
  | text => (false, text)

def places : List Char → List Char × List Char
  | '.' :: rest => (rest.takeWhile Char.isDigit, rest.dropWhile Char.isDigit)
  | text => ([], text)

/-- The exponent that ends a number; it is zero if nothing is left. -/
def exponent? : List Char → Option Int
  | [] => some 0
  | 'e' :: rest | 'E' :: rest =>
    let (negative, digits) := sign rest
    if digits.isEmpty || !digits.all Char.isDigit then none
    else some (if negative then -(digitsValue digits : Int) else digitsValue digits)
  | _ => none

/-- The number nearest to `significand * 10 ^ exponent`. -/
def nearest (significand : Nat) (exponent : Int) : Binary64 :=
  Binary64.ofRatio (significand * Nat.pow 10 exponent.toNat) (Nat.pow 10 (-exponent).toNat)

end Decimal

open Decimal in
def Binary64.ofText? (text : String) : Option Binary64 :=
  let (negative, unsigned) := sign text.toList
  let magnitude? : Option Binary64 :=
    if unsigned = "NaN".toList then some nan
    else if unsigned = "inf".toList then some (infinity false)
    else do
      let whole := unsigned.takeWhile Char.isDigit
      let (behind, rest) := places (unsigned.dropWhile Char.isDigit)
      if whole.isEmpty && behind.isEmpty then none
      let exponent ← exponent? rest
      return nearest (digitsValue (whole ++ behind)) (exponent - behind.length)
  magnitude?.map fun x => if negative then x.negate else x

end CypherGremlin
