import CypherGremlin.Json.Basic
import CypherGremlin.Program.Instruction

/-!
# Bytecode

A program as a list of instructions whose integers have 64 bits.  A bound of a range that is larger
is capped.  Instructions have a form as JSON, and a form as bytes from which a fingerprint is
computed: each argument is a tag and what it holds, and lengths stand before texts and lists.
-/

namespace CypherGremlin

/-- A program as instructions. -/
abbrev Bytecode := List (Instruction Int64)

def largestInt64 : Nat := Int64.maxValue.toInt.toNat

/-- Bytecode caps the bounds of ranges. -/
def Integers.capped : Integers Int64 where
  ofLiteral i := i
  ofBound n := Int64.ofNat (min n.toNat largestInt64)

def Traversal.bytecode (t : Traversal) : Bytecode := Traversal.instructions .capped t

/-! ## JSON -/

def Json.typed (tag : String) (value : Json) : Json :=
  .object [("type", .string tag), ("value", value)]

mutual

def Instruction.toJson : Instruction Int64 → Json
  | .call operator arguments =>
    .object [("operator", .string operator), ("arguments", .array (Argument.toJsons arguments))]

def Argument.toJson : Argument Int64 → Json
  | .bool b => .typed "bool" (.bool b)
  | .int i => .typed "int" (.int i.toInt)
  | .float x => .typed "float" (.float x)
  | .string s => .typed "string" (.string s)
  | .list items => .typed "list" (.array (Argument.toJsons items))
  | .map entries => .typed "map" (.array (Argument.entriesToJsons entries))
  | .token encoded => .typed "token" (.string encoded)
  | .binding name => .typed "binding" (.object [("name", .string name)])
  | .predicate operator arguments =>
    .typed "predicate"
      (.object [("operator", .string operator), ("value", .array (Argument.toJsons arguments))])
  | .traversal instructions =>
    .typed "traversal" (.object [("steps", .array (Instruction.toJsons instructions))])
  | .constant kind name => .typed "enum" (.object [("kind", .string kind), ("value", .string name)])
  | .function symbol => .typed "function" (.object [("symbol", .string symbol)])

def Argument.toJsons : List (Argument Int64) → List Json
  | [] => []
  | a :: rest => a.toJson :: Argument.toJsons rest

def Argument.entriesToJsons : List (String × Argument Int64) → List Json
  | [] => []
  | (k, a) :: rest => .array [.string k, a.toJson] :: Argument.entriesToJsons rest

def Instruction.toJsons : List (Instruction Int64) → List Json
  | [] => []
  | i :: rest => i.toJson :: Instruction.toJsons rest

end

def Bytecode.toJson (code : Bytecode) : Json :=
  .object [("steps", .array (Instruction.toJsons code))]

/-! ## Bytes -/

def textBytes (text : String) : List UInt8 := text.toList.flatMap String.utf8EncodeChar

/-- The given number of bytes of a number, the least significant first. -/
def littleEndianBytes : Nat → UInt64 → List UInt8
  | 0, _ => []
  | n + 1, x => x.toUInt8 :: littleEndianBytes n (x >>> 8)

def wordBytes (x : UInt64) : List UInt8 := littleEndianBytes 8 x

def lengthBytes (n : Nat) : List UInt8 := wordBytes (UInt64.ofNat n)

def measuredBytes (text : String) : List UInt8 :=
  let bytes := textBytes text
  lengthBytes bytes.length ++ bytes

mutual

def Instruction.bytes : Instruction Int64 → List UInt8
  | .call operator arguments =>
    textBytes operator ++ (lengthBytes arguments.length ++ Argument.bytesAll arguments)

/-- The bytes of an argument: a tag and what the argument holds. -/
def Argument.bytes : Argument Int64 → List UInt8
  | .bool b => [0, if b then 1 else 0]
  | .int i => 1 :: wordBytes i.toUInt64
  | .float x => 2 :: wordBytes x.bits
  | .string s => 3 :: measuredBytes s
  | .list items => 4 :: (lengthBytes items.length ++ Argument.bytesAll items)
  | .map entries => 5 :: (lengthBytes entries.length ++ Argument.entryBytes entries)
  | .token encoded => 6 :: measuredBytes encoded
  | .binding name => 7 :: measuredBytes name
  | .predicate operator arguments =>
    8 :: (measuredBytes operator ++ (lengthBytes arguments.length ++ Argument.bytesAll arguments))
  | .traversal instructions =>
    9 :: (lengthBytes instructions.length ++ Instruction.bytesAll instructions)
  | .constant kind name => 10 :: (measuredBytes kind ++ measuredBytes name)
  | .function symbol => 11 :: measuredBytes symbol

def Argument.bytesAll : List (Argument Int64) → List UInt8
  | [] => []
  | a :: rest => a.bytes ++ Argument.bytesAll rest

def Argument.entryBytes : List (String × Argument Int64) → List UInt8
  | [] => []
  | (k, a) :: rest => measuredBytes k ++ (a.bytes ++ Argument.entryBytes rest)

def Instruction.bytesAll : List (Instruction Int64) → List UInt8
  | [] => []
  | i :: rest => i.bytes ++ Instruction.bytesAll rest

end

def Bytecode.bytes (code : Bytecode) : List UInt8 :=
  lengthBytes code.length ++ Instruction.bytesAll code

end CypherGremlin
