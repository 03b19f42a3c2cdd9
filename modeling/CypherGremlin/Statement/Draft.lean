import CypherGremlin.Statement.Expression

/-!
# The state between clauses

The clauses of a query are lowered one after another; each gives the steps that it adds to the
program.  What a clause leaves for the next one is a `Draft`: the scope, the next number, and which
buckets of deleted elements are in use.
-/

namespace CypherGremlin

structure Buckets where
  /-- Nodes that must have no relationships left. -/
  plain : Bool := false
  /-- Relationships, and nodes that are deleted together with theirs. -/
  detached : Bool := false
deriving DecidableEq, Repr

/-- What a clause leaves for the next one. -/
structure Draft where
  scope : Scope := {}
  next : Nat := Supply.first
  buckets : Buckets := {}

/-- A computation on the state between clauses that can refuse. -/
abbrev Drafting := StateT Draft (Except QueryFault)

namespace Drafting

def scope : Drafting Scope := do return (← get).scope

def modifyScope (f : Scope → Scope) : Drafting Unit :=
  modify fun draft => { draft with scope := f draft.scope }

/-- Runs a computation that takes numbers, in the present scope. -/
def supply {α : Type} (f : Scope → Supply α) : Drafting α := do
  let draft ← get
  let (a, next) ← (f draft.scope).run draft.next
  set { draft with next }
  return a

def fresh (token : UInt32 → Token) : Drafting Label := supply fun _ => Supply.fresh token

def value (e : Expr) (mode : Mode) : Drafting Traversal :=
  supply fun scope => e.lower scope (.value mode)

def filter (e : Expr) : Drafting Traversal := supply fun scope => e.lower scope .filter

def condition (e : Option Expr) : Drafting Traversal :=
  match e with
  | none => return []
  | some e => do return [.filter (← filter e)]

/-- The label of an element: its variable, or a number. -/
def elementLabel (var : Option String) (context : String) : Drafting Label :=
  match var with
  | some var => do
    checkName var context
    return .named var
  | none => fresh .unnamed

def bindElement (var : Option String) (kind : VarKind) (nullable : Bool) (context : String) :
    Drafting Label := do
  let label ← elementLabel var context
  modifyScope (·.declareOptional var kind nullable)
  return label

end Drafting

def nodeContext : String := "node variable"

def relationshipContext : String := "relationship variable"

/-- The steps that bind variables again, after a clause has put their values into a map. -/
def rebinding (row : Label) (vars : List String) : Traversal :=
  .as row :: vars.flatMap fun var => [.select [row], .selectKey (.named var), .as (.named var)]

end CypherGremlin
