import CypherGremlin.Digest.XXH64
import CypherGremlin.Json.Printer
import CypherGremlin.Program.Bytecode
import CypherGremlin.Program.Groovy
import CypherGremlin.Program.Validity

/-!
# Programs

What is sent to an engine: Groovy text or bytecode.  `Program.emit` writes a traversal that passes
the checks of `Program.Validity` in either format.  A program has a fingerprint, by which equal
programs can be recognised; it is the digest of `Program.bytes`.
-/

namespace CypherGremlin

/-! ## Formats -/

inductive Format where
  | groovy
  | bytecode
deriving DecidableEq, Repr, Inhabited

namespace Format

def all : List Format := [groovy, bytecode]

def text : Format → String
  | groovy => "groovy"
  | bytecode => "bytecode"

/-- The format of the given name.  Blanks around it and the case of ASCII letters do not matter. -/
def ofText (text : String) : Except SettingsFault Format :=
  match all.find? fun format => format.text == (trimBlanks text).toLower with
  | some format => .ok format
  | none => .error (.unknownFormat text)

end Format

/-! ## Programs -/

inductive Program where
  | groovy (text : String)
  | bytecode (code : Bytecode)

namespace Program

def format : Program → Format
  | groovy _ => .groovy
  | bytecode _ => .bytecode

def emit (registry : Registry) (format : Format) (t : Traversal) : Except EmissionFault Program :=
  do
  Traversal.check registry t
  match format with
  | .groovy => return groovy (Traversal.groovy t)
  | .bytecode => return bytecode (Traversal.bytecode t)

def render : Program → String
  | groovy text => text
  | bytecode code => code.toJson.pretty

/-- The bytes that stand for a program: the name of its format, then its content. -/
def bytes (p : Program) : List UInt8 :=
  textBytes p.format.text ++ match p with
    | groovy text => textBytes text
    | bytecode code => code.bytes

def fingerprint (p : Program) : UInt64 := XXH64.hash 0 p.bytes

/-- The given number of hexadecimal digits, in lower case. -/
def hexDigits : Nat → Nat → List Char
  | 0, _ => []
  | n + 1, x => hexDigits n (x / 16) ++ [Nat.digitChar (x % 16)]

def fingerprintText (p : Program) : String := String.ofList (hexDigits 16 p.fingerprint.toNat)

end Program

end CypherGremlin
