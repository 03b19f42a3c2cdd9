import CypherGremlin.Toml.Basic

/-!
# Reading settings tables

A file is read line by line, because no value goes over the end of a line.  A line is empty, a
header, or an entry; a comment may follow.  The result is `none` for anything that is not of this
form.  Recursion is bounded by the length of the line, which suffices because every nested read has
consumed a character.
-/

namespace CypherGremlin

namespace Toml

/-! ## Characters -/

/-- A blank inside a line. -/
def isGap (c : Char) : Bool := c == ' ' || c == '\t'

/-- A character that comments and strings may hold. -/
def isContent (c : Char) : Bool := c == '\t' || (32 ≤ c.toNat && c.toNat ≠ 127)

/-- A character of a key without quotes. -/
def isBare (c : Char) : Bool := c.isAlphanum || c == '_' || c == '-'

/-- What follows the blanks. -/
def skipGap (text : List Char) : List Char := text.dropWhile isGap

def isLineEnd (text : List Char) : Bool :=
  match skipGap text with
  | [] => true
  | '#' :: comment => comment.all isContent
  | _ => false

/-! ## Strings -/

def hexDigit? (c : Char) : Option Nat :=
  if c.isDigit then some (c.toNat - '0'.toNat)
  else if 'a' ≤ c ∧ c ≤ 'f' then some (c.toNat - 'a'.toNat + 10)
  else if 'A' ≤ c ∧ c ≤ 'F' then some (c.toNat - 'A'.toNat + 10)
  else none

/-- The character with the given hexadecimal number. -/
def codePoint? (digits : List Char) : Option Char := do
  let ds ← digits.mapM hexDigit?
  let n : Nat := ds.foldl (fun n d => n * 16 + d) 0
  if n.isValidChar then some (Char.ofNat n) else none

def escape? : Char → Option Char
  | 'b' => some '\x08'
  | 't' => some '\t'
  | 'n' => some '\n'
  | 'f' => some '\x0c'
  | 'r' => some '\r'
  | '"' => some '"'
  | '\\' => some '\\'
  | _ => none

/-- The rest of a string in double quotes, after the first one. -/
def basicString? : List Char → Option (List Char × List Char)
  | [] => none
  | '"' :: rest => some ([], rest)
  | '\\' :: 'u' :: a :: b :: c :: d :: rest => do
    let char ← codePoint? [a, b, c, d]
    let (chars, rest) ← basicString? rest
    return (char :: chars, rest)
  | '\\' :: 'U' :: a :: b :: c :: d :: e :: f :: g :: h :: rest => do
    let char ← codePoint? [a, b, c, d, e, f, g, h]
    let (chars, rest) ← basicString? rest
    return (char :: chars, rest)
  | '\\' :: short :: rest => do
    let char ← escape? short
    let (chars, rest) ← basicString? rest
    return (char :: chars, rest)
  | char :: rest => do
    if !isContent char || char == '\\' then none
    let (chars, rest) ← basicString? rest
    return (char :: chars, rest)

/-- The rest of a string in single quotes, after the first one. -/
def literalString? : List Char → Option (List Char × List Char)
  | [] => none
  | '\'' :: rest => some ([], rest)
  | char :: rest => do
    if !isContent char then none
    let (chars, rest) ← literalString? rest
    return (char :: chars, rest)

/-! ## Keys -/

def simpleKey? (text : List Char) : Option (String × List Char) :=
  match text with
  | '"' :: rest => (basicString? rest).map fun (chars, rest) => (String.ofList chars, rest)
  | '\'' :: rest => (literalString? rest).map fun (chars, rest) => (String.ofList chars, rest)
  | _ =>
    let chars := text.takeWhile isBare
    if chars.isEmpty then none else some (String.ofList chars, text.dropWhile isBare)

/-- A key with at most the given number of dots, and the text after the blanks that follow it. -/
def key? : Nat → List Char → Option (List String × List Char)
  | 0, _ => none
  | n + 1, text => do
    let (first, rest) ← simpleKey? (skipGap text)
    match skipGap rest with
    | '.' :: rest =>
      let (others, rest) ← key? n rest
      return (first :: others, rest)
    | rest => return ([first], rest)

/-! ## Numbers and truth values -/

/-- A character of a number or a truth value. -/
def isWord (c : Char) : Bool :=
  c.isAlphanum || c == '_' || c == '+' || c == '-' || c == '.' || c == ':'

/-- The number with the given digits in a base.  An underscore may stand between two digits. -/
def digits? (base : Nat) (text : List Char) : Option Nat := do
  let groups := text.splitOn '_'
  if groups.any (·.isEmpty) then none
  let ds ← groups.flatten.mapM hexDigit?
  if ds.all (· < base) then some (ds.foldl (fun n d => n * base + d) 0) else none

/-- A number of 64 bits with a sign. -/
def inRange? (i : Int) : Option Toml :=
  if Int64.minValue.toInt ≤ i ∧ i ≤ Int64.maxValue.toInt then some (.integer i) else none

/-- A decimal number without a sign.  It begins with zero only if it is zero. -/
def decimal? (text : List Char) : Option Nat :=
  match text with
  | '0' :: _ :: _ => none
  | _ => digits? 10 text

/-- A number or a truth value. -/
def word? (word : List Char) : Option Toml :=
  match word with
  | '0' :: 'x' :: digits => do inRange? (← digits? 16 digits)
  | '0' :: 'o' :: digits => do inRange? (← digits? 8 digits)
  | '0' :: 'b' :: digits => do inRange? (← digits? 2 digits)
  | '+' :: digits => do inRange? (← decimal? digits)
  | '-' :: digits => do inRange? (-(← decimal? digits))
  | _ =>
    if word = "true".toList then some (.boolean true)
    else if word = "false".toList then some (.boolean false)
    else do inRange? (← decimal? word)

/-! ## Values -/

mutual

/-- A value with tables nested at most to the given depth. -/
def value? : Nat → List Char → Option (Toml × List Char)
  | 0, _ => none
  | n + 1, text =>
    match text with
    | '"' :: rest =>
      (basicString? rest).map fun (chars, rest) => (.string (String.ofList chars), rest)
    | '\'' :: rest =>
      (literalString? rest).map fun (chars, rest) => (.string (String.ofList chars), rest)
    | '\x7b' :: rest =>
      match skipGap rest with
      | '\x7d' :: rest => some (.table .inline [], rest)
      | rest => (entries? n (.empty .inline) rest).map fun (filled, rest) => (filled.toToml, rest)
    | _ => do
      let value ← word? (text.takeWhile isWord)
      return (value, text.dropWhile isWord)

def entries? : Nat → TomlTable → List Char → Option (TomlTable × List Char)
  | 0, _, _ => none
  | n + 1, found, text => do
    let (path, rest) ← key? (text.length + 1) text
    match rest with
    | '=' :: rest =>
      let (value, rest) ← value? n (skipGap rest)
      let filled ← found.assign path value
      match skipGap rest with
      | ',' :: rest => entries? n filled rest
      | '\x7d' :: rest => some (filled, rest)
      | _ => none
    | _ => none

end

/-! ## Files -/

/-- A file that has been read up to some line: the whole table, and the path of the table whose
entries follow. -/
structure Document where
  root : TomlTable := .empty .opened
  current : List String := []

def Document.header? (doc : Document) (text : List Char) : Option Document := do
  let (path, rest) ← key? (text.length + 1) text
  match rest with
  | ']' :: rest =>
    if !isLineEnd rest then none
    return ⟨← doc.root.openAt path, path⟩
  | _ => none

def Document.entry? (doc : Document) (text : List Char) : Option Document := do
  let (path, rest) ← key? (text.length + 1) text
  match rest with
  | '=' :: rest =>
    let (value, rest) ← value? (rest.length + 1) (skipGap rest)
    if !isLineEnd rest then none
    let root ← doc.root.changeAt .opened TomlTable.headerEnters (·.assign path value) doc.current
    return { doc with root }
  | _ => none

def Document.line? (doc : Document) (line : List Char) : Option Document :=
  if isLineEnd line then some doc
  else
    match skipGap line with
    | '[' :: rest => doc.header? rest
    | rest => doc.entry? rest

/-- A line without the carriage return that may belong to its end. -/
def stripReturn (line : List Char) : List Char :=
  match line.getLast? with
  | some '\r' => line.dropLast
  | _ => line

/-- The lines of a file.  What follows the last line feed is a line too. -/
def lines (text : List Char) : List (List Char) :=
  let all := text.splitOn '\n'
  all.dropLast.map stripReturn ++ all.getLast?.toList

/-- The text without the byte order mark that may stand in front. -/
def stripMark : List Char → List Char
  | '\ufeff' :: rest => rest
  | text => text

def parse? (text : String) : Option TomlTable := do
  let doc ← (lines (stripMark text.toList)).foldlM Document.line? {}
  return doc.root

end Toml

end CypherGremlin
