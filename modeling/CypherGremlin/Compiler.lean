import CypherGremlin.Dialect.Basic
import CypherGremlin.Program.Basic
import CypherGremlin.Statement.OfQuery

/-!
# From a query to a program

A `Compiler` is a dialect, a format and a registry.  It takes a query to its statement, the
statement to the dialect, and writes the result as a program.
-/

namespace CypherGremlin

/-- What programs are written for. -/
structure Compiler where
  dialect : Dialect := Dialect.gremlin
  format : Format := .groovy
  registry : Registry := Registry.standard

structure Compiled where
  program : Program
  statement : Statement

def Compiler.statement (compiler : Compiler) (q : Query) : Except QueryFault Statement := do
  compiler.dialect.apply (← q.statement)

def Compiler.compile (compiler : Compiler) (q : Query) : Except Failure Compiled := do
  let statement ← (compiler.statement q).mapError .query
  let program ← (Program.emit compiler.registry compiler.format statement.traversal).mapError
    .emission
  return ⟨program, statement⟩

end CypherGremlin
