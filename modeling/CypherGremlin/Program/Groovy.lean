import CypherGremlin.Number.Layout
import CypherGremlin.Program.Instruction

/-!
# Groovy text

A program as a chain of calls on the graph, `g.V().out()`; a nested traversal is a chain on `__`.
An empty nested traversal is written as one that does nothing, because a chain needs a call.
-/

namespace CypherGremlin

def Integers.unbounded : Integers Int where
  ofLiteral i := i.toInt
  ofBound n := n.toNat

/-- A key of a map: an identifier as it is, any other text in quotes. -/
def groovyKey (key : String) : String := if isIdentifier key then key else quoted key

mutual

def Instruction.groovy : Instruction Int → String
  | .call operator arguments =>
    "." ++ operator ++ "(" ++ separated ", " (Argument.groovyAll arguments) ++ ")"

def Argument.groovy : Argument Int → String
  | .bool b => if b then "true" else "false"
  | .int i => toString i
  | .float x => x.text
  | .string s => quoted s
  | .list items => "[" ++ separated ", " (Argument.groovyAll items) ++ "]"
  | .map [] => "[:]"
  | .map (first :: rest) =>
    "[" ++ separated ", " (Argument.groovyEntries (first :: rest)) ++ "]"
  | .token encoded => quoted encoded
  | .binding name => name
  | .predicate operator arguments =>
    operator ++ "(" ++ separated ", " (Argument.groovyAll arguments) ++ ")"
  | .traversal [] => "__.identity()"
  | .traversal (first :: rest) => "__" ++ Instruction.groovyChain (first :: rest)
  | .constant _ name => name
  | .function symbol => symbol ++ "()"

def Argument.groovyAll : List (Argument Int) → List String
  | [] => []
  | a :: rest => a.groovy :: Argument.groovyAll rest

def Argument.groovyEntries : List (String × Argument Int) → List String
  | [] => []
  | (k, a) :: rest => (groovyKey k ++ ": " ++ a.groovy) :: Argument.groovyEntries rest

def Instruction.groovyChain : List (Instruction Int) → String
  | [] => ""
  | i :: rest => i.groovy ++ Instruction.groovyChain rest

end

/-- The text of a program. -/
def Traversal.groovy (t : Traversal) : String :=
  "g" ++ Instruction.groovyChain (Traversal.instructions .unbounded t)

end CypherGremlin
