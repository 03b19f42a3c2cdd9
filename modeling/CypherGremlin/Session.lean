import CypherGremlin.Compiler
import CypherGremlin.Parameters
import CypherGremlin.Row.Basic

/-!
# Running queries

An `Engine` installs custom symbols and runs programs, in any monad.  A `Session` is a compiler and
an engine that has the symbols of its registry.  A query is compiled and its parameters are prepared
before the engine sees anything; then its rows are read.
-/

namespace CypherGremlin

/-- What runs programs. -/
structure Engine (m : Type → Type) where
  install : Registry → m (Except EngineFault Unit)
  run : Program → Parameters → m (Except EngineFault (List RawRow))

structure Session (m : Type → Type) where
  compiler : Compiler
  engine : Engine m

variable {m : Type → Type} [Monad m]

def Session.start (compiler : Compiler) (engine : Engine m) : m (Except Failure (Session m)) := do
  match ← engine.install compiler.registry with
  | .ok () => return .ok ⟨compiler, engine⟩
  | .error fault => return .error (.engine fault)

def Session.prepare (session : Session m) (q : Query) (parameters : Parameters) :
    Except Failure (Compiled × Parameters) := do
  let compiled ← session.compiler.compile q
  let prepared ← parameters.prepare.mapError .query
  return (compiled, prepared)

/-- What the rows of the engine mean.  An error is told apart by its text. -/
def Compiled.readReply (compiled : Compiled) :
    Except EngineFault (List RawRow) → Except Failure (List ResultRow)
  | .error fault => .error (.engine fault.classify)
  | .ok rows => (rows.mapM (RawRow.read compiled.statement.columns)).mapError .row

def Session.query (session : Session m) (q : Query) (parameters : Parameters) :
    m (Except Failure (List ResultRow)) := do
  match session.prepare q parameters with
  | .error failure => return .error failure
  | .ok (compiled, prepared) =>
    return compiled.readReply (← session.engine.run compiled.program prepared)

end CypherGremlin
