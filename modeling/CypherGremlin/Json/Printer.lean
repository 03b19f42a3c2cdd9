import CypherGremlin.Json.Basic
import CypherGremlin.Number.Layout
import CypherGremlin.Text.Basic

/-!
# Writing JSON

Two forms of one text: the compact form has no white space, the pretty form puts each item and each
field on a line of its own, indented by two blanks per level.  Strings escape the double quote, the
backslash and the control characters below the blank, and nothing else.  A number that is not finite
has no JSON form and is written `null`.
-/

namespace CypherGremlin

namespace Json

def hexDigit (n : Nat) : Char := Nat.digitChar (n % 16)

/-- One character of a JSON string. -/
def escapeChar (c : Char) : List Char :=
  if c = '"' then ['\\', '"']
  else if c = '\\' then ['\\', '\\']
  else if c = '\x08' then ['\\', 'b']
  else if c = '\x0c' then ['\\', 'f']
  else if c = '\n' then ['\\', 'n']
  else if c = '\r' then ['\\', 'r']
  else if c = '\t' then ['\\', 't']
  else if c.toNat < 0x20 then ['\\', 'u', '0', '0', hexDigit (c.toNat / 16), hexDigit c.toNat]
  else [c]

def quote (s : String) : String :=
  String.ofList ('"' :: s.toList.flatMap escapeChar ++ ['"'])

/-- A JSON number for a double-precision number, or `null`. -/
def number (x : Binary64) : String :=
  if x.isFinite then Layout.json.write x else "null"

/-- A value without items and fields. -/
def scalar : Json → String
  | .null => "null"
  | .bool b => if b then "true" else "false"
  | .int i => toString i
  | .float x => number x
  | .string s => quote s
  | .array _ => "[]"
  | .object _ => "\x7b\x7d"

/-! ## The compact form -/

mutual

/-- The text without white space. -/
def compact : Json → String
  | .array items => "[" ++ separated "," (compactItems items) ++ "]"
  | .object fields => "\x7b" ++ separated "," (compactFields fields) ++ "\x7d"
  | j => scalar j

def compactItems : List Json → List String
  | [] => []
  | item :: rest => item.compact :: compactItems rest

def compactFields : List (String × Json) → List String
  | [] => []
  | (name, value) :: rest => (quote name ++ ":" ++ value.compact) :: compactFields rest

end

/-! ## The pretty form -/

def indent (level : Nat) : String := String.ofList (List.replicate (2 * level) ' ')

/-- Texts on lines of their own, between an opening and a closing bracket. -/
def block (left right : String) (level : Nat) : List String → String
  | [] => left ++ right
  | texts =>
    left ++ "\n" ++ indent (level + 1) ++ separated (",\n" ++ indent (level + 1)) texts ++ "\n" ++
      indent level ++ right

mutual

/-- The text with a line for each item and field, at the given level. -/
def prettyAt (level : Nat) : Json → String
  | .array items => block "[" "]" level (prettyItems (level + 1) items)
  | .object fields => block "\x7b" "\x7d" level (prettyFields (level + 1) fields)
  | j => scalar j

def prettyItems (level : Nat) : List Json → List String
  | [] => []
  | item :: rest => item.prettyAt level :: prettyItems level rest

def prettyFields (level : Nat) : List (String × Json) → List String
  | [] => []
  | (name, value) :: rest => (quote name ++ ": " ++ value.prettyAt level) :: prettyFields level rest

end

/-- The text with a line for each item and field. -/
def pretty (j : Json) : String := j.prettyAt 0

end Json

end CypherGremlin
