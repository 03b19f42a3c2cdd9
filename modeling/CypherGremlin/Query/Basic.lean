import CypherGremlin.Number.Binary64

/-!
# Queries

A Cypher query as a tree: clauses, patterns, expressions.  It is the input of the library, built by
a parser elsewhere, by `Query.Builder`, or read from JSON.  Not every tree has a traversal; the tree
can also hold what lowering refuses by name.

A pattern occurs inside an expression (as a test) and holds expressions (as property values).  The
pattern types therefore take the type of expressions as a parameter, and `Expr` is nested in them.
-/

namespace CypherGremlin

/-! ## Literals -/

/-- A value that a query can write down, or that is given as a parameter.  A map keeps its entries
as they were written. -/
inductive Literal where
  | null
  | bool (b : Bool)
  | int (i : Int64)
  | float (x : Binary64)
  | string (s : String)
  | list (items : List Literal)
  | map (entries : List (String × Literal))
deriving Inhabited

namespace Literal

def isNull : Literal → Bool
  | null => true
  | _ => false

mutual

/-- Equality of literals, by the value of the numbers in them: a literal that holds not-a-number
equals nothing, and the two zeros are equal. -/
def same : Literal → Literal → Bool
  | .null, .null => true
  | .bool a, .bool b => a == b
  | .int a, .int b => a == b
  | .float a, .float b => a.equal b
  | .string a, .string b => a == b
  | .list a, .list b => sameItems a b
  | .map a, .map b => sameEntries a b
  | _, _ => false

def sameItems : List Literal → List Literal → Bool
  | [], [] => true
  | a :: as, b :: bs => a.same b && sameItems as bs
  | _, _ => false

def sameEntries : List (String × Literal) → List (String × Literal) → Bool
  | [], [] => true
  | (k, a) :: as, (l, b) :: bs => k == l && a.same b && sameEntries as bs
  | _, _ => false

end

end Literal

/-! ## Operators -/

inductive Comparison where
  | eq
  | neq
  | lt
  | lte
  | gt
  | gte
deriving DecidableEq, Repr

def Comparison.flipped : Comparison → Comparison
  | .eq => .eq
  | .neq => .neq
  | .lt => .gt
  | .lte => .gte
  | .gt => .lt
  | .gte => .lte

/-- A test of how a string begins, ends or continues. -/
inductive StringTest where
  | startsWith
  | endsWith
  | contains
deriving DecidableEq, Repr

inductive Arithmetic where
  | add
  | sub
  | mul
  | div
  | mod
deriving DecidableEq, Repr

inductive Direction where
  | out
  | in
  | both
deriving DecidableEq, Repr, Inhabited

/-! ## Patterns -/

/-- The bounds of a relationship that stands for several hops. -/
structure HopRange where
  min : Option UInt32
  max : Option UInt32
deriving DecidableEq, Repr

structure NodePatternOf (ε : Type) where
  var : Option String := none
  labels : List String := []
  properties : List (String × ε) := []

structure RelPatternOf (ε : Type) where
  var : Option String := none
  types : List String := []
  direction : Direction := .out
  properties : List (String × ε) := []
  length : Option HopRange := none

structure HopOf (ε : Type) where
  rel : RelPatternOf ε
  node : NodePatternOf ε

/-- A node and the hops that follow it, perhaps named as a path. -/
structure PatternOf (ε : Type) where
  path : Option String := none
  start : NodePatternOf ε
  hops : List (HopOf ε) := []

/-! ## Expressions -/

/-- An expression. -/
inductive Expr where
  | literal (value : Literal)
  | parameter (name : String)
  | var (name : String)
  | property (base : Expr) (key : String)
  | list (items : List Expr)
  | map (entries : List (String × Expr))
  | not (inner : Expr)
  | and (left right : Expr)
  | or (left right : Expr)
  | xor (left right : Expr)
  | compare (op : Comparison) (left right : Expr)
  | stringMatch (test : StringTest) (left right : Expr)
  | isNull (inner : Expr)
  | isNotNull (inner : Expr)
  | member (item list : Expr)
  | hasLabels (var : String) (labels : List String)
  | pattern (p : PatternOf Expr)
  | arithmetic (op : Arithmetic) (left right : Expr)
  | call (name : String) (distinct : Bool) (args : List Expr)
  | countStar
deriving Inhabited

abbrev NodePattern := NodePatternOf Expr

abbrev RelPattern := RelPatternOf Expr

/-- A relationship of a pattern and the node it reaches. -/
abbrev Hop := HopOf Expr

/-- A node and the hops that follow it. -/
abbrev Pattern := PatternOf Expr

/-! ## Clauses -/

structure ProjectionItem where
  expr : Expr
  givenName : Option String := none

structure SortItem where
  expr : Expr
  descending : Bool := false

/-- What WITH and RETURN have in common. -/
structure Projection where
  distinct : Bool := false
  star : Bool := false
  items : List ProjectionItem := []
  orderBy : List SortItem := []
  skip : Option Expr := none
  limit : Option Expr := none
  condition : Option Expr := none

/-- A property and the value it is set to. -/
structure Assignment where
  var : String
  key : String
  value : Expr

structure PropertyRef where
  var : String
  key : String
deriving DecidableEq, Repr

inductive Clause where
  | match (optional : Bool) (patterns : List Pattern) (condition : Option Expr)
  | unwind (expr : Expr) (name : String)
  | with (projection : Projection)
  | return (projection : Projection)
  | create (patterns : List Pattern)
  | merge (pattern : Pattern)
  | set (items : List Assignment)
  | remove (items : List PropertyRef)
  | delete (detach : Bool) (targets : List Expr)

/-- A query: its clauses in order. -/
structure Query where
  clauses : List Clause

/-! ## Aggregates -/

inductive Aggregate where
  | count
  | collect
  | sum
  | avg
  | min
  | max
deriving DecidableEq, Repr

/-- The aggregate function of the given name, whatever the case of its ASCII letters. -/
def Aggregate.ofName? (name : String) : Option Aggregate :=
  [("count", count), ("collect", collect), ("sum", sum), ("avg", avg), ("min", min),
    ("max", max)].lookup name.toLower

mutual

/-- Whether an aggregate occurs in the expression.  The properties of a pattern are not looked into.
-/
def Expr.aggregates : Expr → Bool
  | .countStar => true
  | .call name _ args => (Aggregate.ofName? name).isSome || anyAggregates args
  | .property base _ => base.aggregates
  | .list items => anyAggregates items
  | .map entries => anyEntryAggregates entries
  | .not inner | .isNull inner | .isNotNull inner => inner.aggregates
  | .and l r | .or l r | .xor l r | .member l r => l.aggregates || r.aggregates
  | .compare _ l r | .stringMatch _ l r | .arithmetic _ l r => l.aggregates || r.aggregates
  | .literal _ | .parameter _ | .var _ | .hasLabels _ _ | .pattern _ => false

def anyAggregates : List Expr → Bool
  | [] => false
  | e :: rest => e.aggregates || anyAggregates rest

def anyEntryAggregates : List (String × Expr) → Bool
  | [] => false
  | (_, e) :: rest => e.aggregates || anyEntryAggregates rest

end

end CypherGremlin
