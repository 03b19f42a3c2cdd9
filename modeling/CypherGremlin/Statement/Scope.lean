import CypherGremlin.Fault
import CypherGremlin.Table
import CypherGremlin.Traversal.Basic

/-!
# Variables in scope

While a query is lowered, its variables are labels of the traversal.  A `Scope` records for each
variable what kind of thing it is bound to and whether it can be null, and for each named path the
labels of its elements.

Steps that the query does not name get labels with numbers.  `Supply` is a computation that can take
such numbers, one after another, and that can refuse.
-/

namespace CypherGremlin

/-! ## Bindings -/

/-- What a variable is bound to. -/
inductive VarKind where
  | node
  | relationship
  | path
  | map
  | value
deriving DecidableEq, Repr

def VarKind.title : VarKind → String
  | node => "Node"
  | relationship => "Relationship"
  | path => "Path"
  | map => "Map"
  | value => "Value"

/-- What is known of a variable. -/
structure Binding where
  kind : VarKind
  /-- The variable may hold null. -/
  nullable : Bool
deriving DecidableEq, Repr

inductive ElementKind where
  | node
  | relationship
deriving DecidableEq, Repr

/-- An element of a path: the label to select it by. -/
structure PathElement where
  label : Label
  kind : ElementKind
deriving DecidableEq, Repr

/-- The elements of a named path, nodes and relationships in turn, the start node first. -/
structure PathShape where
  elements : List PathElement
deriving DecidableEq, Repr

def PathShape.hops (shape : PathShape) : Nat := shape.elements.length / 2

/-! ## Machine words -/

/-- The integer has 64 bits. -/
def IsInt64 (z : Int) : Prop := Int64.minValue.toInt ≤ z ∧ z ≤ Int64.maxValue.toInt

instance (z : Int) : Decidable (IsInt64 z) := inferInstanceAs (Decidable (_ ∧ _))

/-- What becomes of a result that has more than 64 bits.  A library that is built without overflow
checks drops the upper bits; one that is built with them stops. -/
inductive WordArithmetic where
  | wrapping
  | checked
deriving DecidableEq, Repr

namespace WordArithmetic

/-- The machine word of an exact result. -/
def result (operation : String) (exact : Int) : WordArithmetic → Except QueryFault Int64
  | wrapping => .ok (.ofInt exact)
  | checked => if IsInt64 exact then .ok (.ofInt exact) else .error (.overflow operation)

def add (arithmetic : WordArithmetic) (x y : Int64) : Except QueryFault Int64 :=
  arithmetic.result "add" (x.toInt + y.toInt)

def mul (arithmetic : WordArithmetic) (x y : Int64) : Except QueryFault Int64 :=
  arithmetic.result "multiply" (x.toInt * y.toInt)

end WordArithmetic

/-! ## Scopes -/

/-- What an expression is lowered with: the variables in scope, in the order of their declaration,
the shapes of named paths, and the arithmetic of the build, which is checked unless something else
is said. -/
structure Scope where
  vars : Table String Binding := []
  paths : Table String PathShape := []
  arithmetic : WordArithmetic := .checked

namespace Scope

/-- What is known of a variable. -/
def binding? (scope : Scope) (var : String) : Option Binding := Table.get? scope.vars var

def binds (scope : Scope) (var : String) : Bool := Table.has scope.vars var

def lookup (scope : Scope) (var context : String) : Except QueryFault Binding :=
  match scope.binding? var with
  | some binding => .ok binding
  | none => .error (.unknownVariable var context)

def lookupPath (scope : Scope) (var context : String) : Except QueryFault PathShape :=
  match Table.get? scope.paths var with
  | some shape => .ok shape
  | none => .error (.unknownVariable var context)

def declare (scope : Scope) (var : String) (kind : VarKind) (nullable : Bool) : Scope :=
  { scope with vars := Table.put scope.vars var ⟨kind, nullable⟩ }

def declareOptional (scope : Scope) (var : Option String) (kind : VarKind) (nullable : Bool) :
    Scope :=
  match var with
  | some var => scope.declare var kind nullable
  | none => scope

def declarePath (scope : Scope) (var : String) (shape : PathShape) : Scope :=
  { scope.declare var .path false with paths := Table.put scope.paths var shape }

/-- What is known of a variable that a pattern uses as the given kind.  What is only known at run
time is accepted. -/
def expectKind (scope : Scope) (var : String) (kind : VarKind) (context : String) :
    Except QueryFault Binding := do
  let binding ← scope.lookup var context
  if binding.kind == kind || binding.kind == .value || binding.kind == .map then
    return binding
  throw (.invalidArgument context
    ("variable '" ++ var ++ "' is bound to a " ++ binding.kind.title ++ ", not a " ++ kind.title))

end Scope

/-! ## Reading a variable -/

def Step.notNull : Step := .is (.neq .null)

def Step.isNull : Step := .is (.eq .null)

def Traversal.null : Traversal := [.constant .null]

/-- What the variable holds, where null is dropped if it may hold null. -/
def Binding.select (binding : Binding) (var : String) : Traversal :=
  .select [.named var] :: if binding.nullable then [.notNull] else []

/-! ## Numbered labels -/

/-- A computation that takes numbers and that can refuse.  The state is the next number. -/
abbrev Supply := StateT Nat (Except QueryFault)

namespace Supply

def first : Nat := 1

def fresh (token : UInt32 → Token) : Supply Label := do
  let n ← get
  set (n + 1)
  return .token (token n.toUInt32)

end Supply

end CypherGremlin
