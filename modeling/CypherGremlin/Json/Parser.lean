import CypherGremlin.Json.Basic
import CypherGremlin.Text.Basic

/-!
# Reading JSON

The reader works on lists of characters.  Each function takes the text that is left and returns what
it read together with the text behind it.  Recursion is bounded by a number that the top-level
function sets to the length of the text, which suffices because every nested read has consumed a
character.

A number keeps the distinction that matters to a reader of queries: without fraction and exponent,
and within 64 bits, it is an integer; otherwise it is the double-precision number of its first
nineteen or twenty digits, scaled by a power of ten (`Binary64.ofDecimal`).
-/

namespace CypherGremlin

namespace Json

def isSpace (c : Char) : Bool := c == ' ' || c == '\n' || c == '\t' || c == '\r'

def skipSpace (text : List Char) : List Char := text.dropWhile isSpace

/-! ## Strings -/

def hexValue? (c : Char) : Option Nat :=
  if c.isDigit then some (c.toNat - '0'.toNat)
  else if 'a' ≤ c ∧ c ≤ 'f' then some (c.toNat - 'a'.toNat + 10)
  else if 'A' ≤ c ∧ c ≤ 'F' then some (c.toNat - 'A'.toNat + 10)
  else none

/-- Four hexadecimal digits. -/
def hexQuad : List Char → Option (Nat × List Char)
  | a :: b :: c :: d :: rest => do
    let a ← hexValue? a
    let b ← hexValue? b
    let c ← hexValue? c
    let d ← hexValue? d
    return (((a * 16 + b) * 16 + c) * 16 + d, rest)
  | _ => none

/-- The code point behind `\u`.  The first half of a surrogate pair must be followed by the second
half; a half on its own stands for no character. -/
def unicodeEscape (text : List Char) : Option (Char × List Char) := do
  let (high, rest) ← hexQuad text
  if 0xd800 ≤ high ∧ high < 0xdc00 then
    match rest with
    | '\\' :: 'u' :: rest =>
      let (low, rest) ← hexQuad rest
      if 0xdc00 ≤ low ∧ low < 0xe000 then
        return (Char.ofNat (0x10000 + (high - 0xd800) * 0x400 + (low - 0xdc00)), rest)
      else none
    | _ => none
  else if 0xdc00 ≤ high ∧ high < 0xe000 then none
  else return (Char.ofNat high, rest)

/-- The characters up to the closing quote. -/
def stringBody : Nat → List Char → Option (List Char × List Char)
  | 0, _ => none
  | fuel + 1, text =>
    match text with
    | [] => none
    | '"' :: rest => some ([], rest)
    | '\\' :: 'u' :: rest => do
      let (c, rest) ← unicodeEscape rest
      let (cs, rest) ← stringBody fuel rest
      return (c :: cs, rest)
    | '\\' :: e :: rest => do
      let c ← simpleEscape? e
      let (cs, rest) ← stringBody fuel rest
      return (c :: cs, rest)
    | c :: rest =>
      if c.toNat < 0x20 ∨ c = '\\' then none
      else do
        let (cs, rest) ← stringBody fuel rest
        return (c :: cs, rest)
where
  simpleEscape? (e : Char) : Option Char :=
    [('"', '"'), ('\\', '\\'), ('/', '/'), ('b', '\x08'), ('f', '\x0c'), ('n', '\n'), ('r', '\r'),
      ('t', '\t')].lookup e

/-! ## Numbers -/

def digits (text : List Char) : List Nat × List Char :=
  ((text.takeWhile Char.isDigit).map fun c => c.toNat - '0'.toNat, text.dropWhile Char.isDigit)

/-- The digits appended to a significand as long as it stays within 64 bits, and the digits left
over. -/
def appendDigits (significand : Nat) : List Nat → Nat × List Nat
  | [] => (significand, [])
  | d :: rest =>
    if significand * 10 + d < UInt64.size then appendDigits (significand * 10 + d) rest
    else (significand, d :: rest)

/-- The fraction of a number, if there is one: a point and at least one digit. -/
def fraction? (text : List Char) : Option (Option (List Nat) × List Char) :=
  match text with
  | '.' :: rest =>
    match digits rest with
    | ([], _) => none
    | (ds, rest) => some (some ds, rest)
  | _ => some (none, text)

/-- The exponent of a number, if there is one: a mark, perhaps a sign, and at least one digit. -/
def exponent? (text : List Char) : Option (Option Int × List Char) :=
  match text with
  | 'e' :: rest | 'E' :: rest =>
    let (negative, rest) := match rest with
      | '-' :: rest => (true, rest)
      | '+' :: rest => (false, rest)
      | rest => (false, rest)
    match digits rest with
    | ([], _) => none
    | (ds, rest) =>
      let e : Int := (ds.foldl (fun n d => n * 10 + d) 0 : Nat)
      some (some (if negative then -e else e), rest)
  | _ => some (none, text)

/-- An integer within 64 bits, signed or unsigned.  Minus zero is no integer. -/
def integer? (negative : Bool) (significand : Nat) : Option Json :=
  if !negative then some (.int significand)
  else if 0 < significand ∧ Int64.minValue.toInt ≤ -(significand : Int) then
    some (.int (-significand))
  else none

/-- A number, from its parts.  One that is too large is an infinity. -/
def assemble (negative : Bool) (whole : List Nat) (fraction : Option (List Nat))
    (exponent : Option Int) : Json :=
  let (significand, dropped) := appendDigits 0 whole
  match fraction, exponent, dropped, integer? negative significand with
  | none, none, [], some j => j
  | _, _, _, _ =>
    let ds := fraction.getD []
    let (significand, unused) := appendDigits significand ds
    let scale : Int := (exponent.getD 0) + dropped.length - (ds.length - unused.length : Nat)
    .float ((Binary64.ofDecimal negative significand scale).getD (.infinity negative))

/-- A number.  Only a single zero may stand in front of other digits. -/
def number? (text : List Char) : Option (Json × List Char) := do
  let (negative, text) := match text with
    | '-' :: rest => (true, rest)
    | text => (false, text)
  match digits text with
  | ([], _) => none
  | (0 :: _ :: _, _) => none
  | (whole, rest) =>
    let (fraction, rest) ← fraction? rest
    let (exponent, rest) ← exponent? rest
    return (assemble negative whole fraction exponent, rest)

/-! ## Values -/

mutual

def value? : Nat → List Char → Option (Json × List Char)
  | 0, _ => none
  | fuel + 1, text =>
    match skipSpace text with
    | [] => none
    | '"' :: rest => do
      let (cs, rest) ← stringBody fuel rest
      return (.string (String.ofList cs), rest)
    | '[' :: rest =>
      match skipSpace rest with
      | ']' :: rest => some (.array [], rest)
      | _ => do
        let (items, rest) ← items? fuel rest
        return (.array items, rest)
    | '\x7b' :: rest =>
      match skipSpace rest with
      | '\x7d' :: rest => some (.object [], rest)
      | _ => do
        let (fields, rest) ← fields? fuel rest
        return (.object fields, rest)
    | 't' :: rest => (dropLead? ['r', 'u', 'e'] rest).map fun rest => (.bool true, rest)
    | 'f' :: rest => (dropLead? ['a', 'l', 's', 'e'] rest).map fun rest => (.bool false, rest)
    | 'n' :: rest => (dropLead? ['u', 'l', 'l'] rest).map fun rest => (.null, rest)
    | text => number? text

def items? : Nat → List Char → Option (List Json × List Char)
  | 0, _ => none
  | fuel + 1, text => do
    let (item, rest) ← value? fuel text
    match skipSpace rest with
    | ']' :: rest => return ([item], rest)
    | ',' :: rest =>
      let (items, rest) ← items? fuel rest
      return (item :: items, rest)
    | _ => none

def fields? : Nat → List Char → Option (List (String × Json) × List Char)
  | 0, _ => none
  | fuel + 1, text =>
    match skipSpace text with
    | '"' :: rest => do
      let (name, rest) ← stringBody fuel rest
      match skipSpace rest with
      | ':' :: rest =>
        let (value, rest) ← value? fuel rest
        let field := (String.ofList name, value)
        match skipSpace rest with
        | '\x7d' :: rest => return ([field], rest)
        | ',' :: rest =>
          let (fields, rest) ← fields? fuel rest
          return (field :: fields, rest)
        | _ => none
      | _ => none
    | _ => none

end

/-- The value that a whole text stands for.  White space around it is allowed, anything else is not.
-/
def parse? (text : String) : Option Json :=
  let cs := text.toList
  match value? (2 * cs.length + 2) cs with
  | some (j, rest) => if (skipSpace rest).isEmpty then some j else none
  | none => none

end Json

end CypherGremlin
