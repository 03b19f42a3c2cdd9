import CypherGremlin.Fault
import CypherGremlin.Query.Basic

/-!
# Building a query call by call

A `Builder` collects clauses.  A call that does not fit where it stands, such as a condition without
a MATCH or WITH in front of it, leaves the clauses as they are and is remembered; `Builder.build`
reports the first such call.
-/

namespace CypherGremlin

/-! ## Patterns -/

def Pattern.ofNode (start : NodePattern) : Pattern := { start }

def Pattern.hop (p : Pattern) (rel : RelPattern) (node : NodePattern) : Pattern :=
  { p with hops := p.hops ++ [⟨rel, node⟩] }

/-- The pattern with another hop along the relationship. -/
def Pattern.out (p : Pattern) (rel : RelPattern) (node : NodePattern) : Pattern :=
  Pattern.hop p { rel with direction := .out } node

/-- The pattern with another hop against the relationship. -/
def Pattern.inbound (p : Pattern) (rel : RelPattern) (node : NodePattern) : Pattern :=
  Pattern.hop p { rel with direction := .in } node

def Pattern.named (p : Pattern) (path : String) : Pattern := { p with path := some path }

/-! ## Queries -/

/-- A query under construction. -/
structure Builder where
  clauses : List Clause := []
  fault : Option QueryFault := none

namespace Builder

def empty : Builder := {}

def misuse (b : Builder) (reason : String) : Builder :=
  { b with fault := b.fault <|> some (.invalidQuery reason) }

def add (b : Builder) (clause : Clause) : Builder := { b with clauses := b.clauses ++ [clause] }

/-- Replaces the last clause by what the function makes of it; a misuse when it makes nothing, or
when there is no clause. -/
def amend (b : Builder) (reason : String) (f : Clause → Option Clause) : Builder :=
  match b.clauses.getLast?.bind f with
  | some clause => { b with clauses := b.clauses.dropLast ++ [clause] }
  | none => b.misuse reason

/-- Adds MATCH or OPTIONAL MATCH.  It needs a pattern. -/
def addMatch (b : Builder) (isOptional : Bool) (patterns : List Pattern) : Builder :=
  if patterns.isEmpty then b.misuse "MATCH requires at least one pattern"
  else b.add (.match isOptional patterns none)

def conjoin (existing : Option Expr) (condition : Expr) : Option Expr :=
  match existing with
  | some e => some (.and e condition)
  | none => some condition

def addCondition (b : Builder) (condition : Expr) : Builder :=
  b.amend "WHERE must follow MATCH or WITH" fun
    | .match isOptional patterns existing =>
      some (.match isOptional patterns (conjoin existing condition))
    | .with p => some (.with { p with condition := conjoin p.condition condition })
    | _ => none

def addUnwind (b : Builder) (expr : Expr) (name : String) : Builder := b.add (.unwind expr name)

def checkItems (b : Builder) (items : List ProjectionItem) : Builder :=
  if items.isEmpty then b.misuse "projection requires at least one item" else b

/-- Adds WITH.  A projection without items is a misuse, but it is added. -/
def addWith (b : Builder) (items : List ProjectionItem) : Builder :=
  (b.checkItems items).add (.with { items })

/-- Adds RETURN.  A projection without items is a misuse, but it is added. -/
def addReturn (b : Builder) (items : List ProjectionItem) : Builder :=
  (b.checkItems items).add (.return { items })

def addReturnAll (b : Builder) : Builder := b.add (.return { star := true })

def amendProjection (b : Builder) (f : Projection → Projection) : Builder :=
  b.amend "projection modifier must follow WITH or RETURN" fun
    | .with p => some (.with (f p))
    | .return p => some (.return (f p))
    | _ => none

def distinct (b : Builder) : Builder := b.amendProjection fun p => { p with distinct := true }

/-- Adds a sort key to the projection in front. -/
def orderBy (b : Builder) (expr : Expr) (descending : Bool) : Builder :=
  b.amendProjection fun p => { p with orderBy := p.orderBy ++ [⟨expr, descending⟩] }

/-- Sets how many rows the projection in front skips. -/
def skip (b : Builder) (count : Int64) : Builder :=
  b.amendProjection fun p => { p with skip := some (.literal (.int count)) }

/-- Sets how many rows the projection in front keeps. -/
def limit (b : Builder) (count : Int64) : Builder :=
  b.amendProjection fun p => { p with limit := some (.literal (.int count)) }

def addCreate (b : Builder) (patterns : List Pattern) : Builder := b.add (.create patterns)

def addMerge (b : Builder) (pattern : Pattern) : Builder := b.add (.merge pattern)

def addSet (b : Builder) (var key : String) (value : Expr) : Builder :=
  let item : Assignment := ⟨var, key, value⟩
  match b.clauses.getLast? with
  | some (.set items) => { b with clauses := b.clauses.dropLast ++ [.set (items ++ [item])] }
  | _ => b.add (.set [item])

def addRemove (b : Builder) (var key : String) : Builder := b.add (.remove [⟨var, key⟩])

def addDelete (b : Builder) (detach : Bool) (vars : List String) : Builder :=
  b.add (.delete detach (vars.map .var))

def build (b : Builder) : Except QueryFault Query :=
  match b.fault with
  | some fault => .error fault
  | none =>
    if b.clauses.isEmpty then .error (.invalidQuery "query has no clauses") else .ok ⟨b.clauses⟩

end Builder

end CypherGremlin
