import CypherGremlin.Text.Invisible

/-!
# Text

How text is taken apart and put together.
-/

namespace CypherGremlin

/-! ## Texts in a row -/

/-- The texts one after another, with the separator between each two neighbours. -/
def separated (separator : String) : List String → String
  | [] => ""
  | [text] => text
  | text :: rest => text ++ separator ++ separated separator rest

/-! ## How a text begins, and what occurs in it -/

/-- What is left of the characters behind the given lead, if they begin with it. -/
def dropLead? : List Char → List Char → Option (List Char)
  | [], text => some text
  | c :: lead, d :: text => if c = d then dropLead? lead text else none
  | _ :: _, [] => none

/-- What is left of the text behind the given lead, if it begins with it. -/
def afterLead? (lead text : String) : Option String :=
  (dropLead? lead.toList text.toList).map String.ofList

def beginsWith (lead text : String) : Bool := (dropLead? lead.toList text.toList).isSome

def occurs (phrase : List Char) : List Char → Bool
  | [] => phrase.isEmpty
  | c :: rest => (dropLead? phrase (c :: rest)).isSome || occurs phrase rest

def mentions (text phrase : String) : Bool := occurs phrase.toList text.toList

/-! ## White space

Names of dialects and formats are read without the white space around them. -/

/-- The ranges of the Unicode property White_Space, by first and last code point, unchanged since
version 6.3. -/
def blankRanges : List (Nat × Nat) :=
  [(0x09, 0x0d), (0x20, 0x20), (0x85, 0x85), (0xa0, 0xa0), (0x1680, 0x1680), (0x2000, 0x200a),
    (0x2028, 0x2029), (0x202f, 0x202f), (0x205f, 0x205f), (0x3000, 0x3000)]

/-- A white-space character. -/
def isBlank (c : Char) : Bool :=
  blankRanges.any fun (first, last) => first ≤ c.toNat && c.toNat ≤ last

/-- The text without white space at its two ends. -/
def trimBlanks (text : String) : String :=
  String.ofList ((text.toList.dropWhile isBlank).reverse.dropWhile isBlank).reverse

/-! ## Identifiers

A parameter becomes a variable of the emitted program, so its name has to be an identifier there, in
ASCII. -/

def isIdentifierStart (c : Char) : Bool := c.isAlpha || c == '_'

def isIdentifierRest (c : Char) : Bool := c.isAlphanum || c == '_'

def isIdentifier (text : String) : Bool :=
  match text.toList with
  | [] => false
  | first :: rest => isIdentifierStart first && rest.all isIdentifierRest

/-! ## Single quotes

Groovy text writes a string between single quotes.  Only quotes and backslashes are escaped; a line
feed is written as it is. -/

/-- The characters with a backslash before each quote and backslash. -/
def escapeQuotes : List Char → List Char
  | [] => []
  | c :: rest =>
    if c = '\\' ∨ c = '\'' then '\\' :: c :: escapeQuotes rest else c :: escapeQuotes rest

def quoted (text : String) : String :=
  String.ofList ('\'' :: escapeQuotes text.toList ++ ['\''])

/-! ## Text in a diagnostic

A character that leaves no mark of its own is written as its code point in braces. -/

/-- One character of a quoted diagnostic. -/
def escapeChar (c : Char) : List Char :=
  if c = '\x00' then ['\\', '0']
  else if c = '\t' then ['\\', 't']
  else if c = '\r' then ['\\', 'r']
  else if c = '\n' then ['\\', 'n']
  else if c = '"' then ['\\', '"']
  else if c = '\\' then ['\\', '\\']
  else if isInvisible c then '\\' :: 'u' :: '\x7b' :: Nat.toDigits 16 c.toNat ++ ['\x7d']
  else [c]

def escaped (text : String) : String :=
  String.ofList ('"' :: text.toList.flatMap escapeChar ++ ['"'])

end CypherGremlin
