import CypherGremlin.Statement.Constant
import CypherGremlin.Statement.Tag

/-!
# Function calls

The functions of Cypher that a traversal can compute, by name, and what each does to the value of
its argument.  The functions whose result does not depend on the value of an argument are here too:
lists of integers, and what can be said of a path from its shape.
-/

namespace CypherGremlin

inductive Function where
  /-- An aggregate.  It has a meaning only as a column. -/
  | aggregate
  | coalesce
  | range
  | id
  | labels
  | type
  | keys
  | startNode
  | endNode
  | nodes
  | relationships
  | length
  | existence
  | other
deriving DecidableEq, Repr

/-- The function of the given name, whatever the case of its ASCII letters. -/
def Function.ofName (name : String) : Function :=
  if (Aggregate.ofName? name).isSome then aggregate
  else
    ([("coalesce", coalesce), ("range", range), ("id", id), ("labels", labels), ("type", type),
      ("keys", keys),
      ("startnode", startNode), ("endnode", endNode), ("nodes", nodes),
      ("relationships", relationships),
      ("length", length), ("exists", existence)].lookup name.toLower).getD other

/-- A call with a wrong number of arguments. -/
def QueryFault.arity (name expected : String) : QueryFault :=
  .invalidArgument "function call" (name ++ "() takes " ++ expected ++ " argument(s)")

/-! ## Kinds of expressions -/

/-- The expression is a map: a variable that holds one, or a map that the query writes down. -/
def Expr.isMap (scope : Scope) : Expr → Except QueryFault Bool
  | .var v => do return (← scope.lookup v "expression").kind == .map
  | .map _ | .literal (.map _) => .ok true
  | _ => .ok false

def Expr.isPath (scope : Scope) : Expr → Bool
  | .var v => (scope.binding? v).map Binding.kind == some .path
  | _ => false

def Expr.columnKind (scope : Scope) : Expr → ColumnKind
  | .var v =>
    match (scope.binding? v).map Binding.kind with
    | some .node => .node
    | some .relationship => .relationship
    | some .path => .path
    | _ => .value
  | .call name _ _ =>
    match Function.ofName name with
    | .id => .id
    | .startNode | .endNode => .node
    | _ => .value
  | _ => .value

/-- What is known of a variable that gets the value of an expression. -/
def Expr.carried (scope : Scope) : Expr → Binding
  | .var v => (scope.binding? v).getD ⟨.value, true⟩
  | .map _ | .literal (.map _) => ⟨.map, false⟩
  | .call name _ _ =>
    match Function.ofName name, CustomFunction.ofCypherName? name with
    | .startNode, _ | .endNode, _ => ⟨.node, true⟩
    | _, some .properties => ⟨.map, true⟩
    | _, _ => ⟨.value, true⟩
  | _ => ⟨.value, true⟩

/-! ## Functions of a value -/

/-- Reads an entry of a map, or a property of an element. -/
def Step.access (isMap : Bool) (key : String) : Step :=
  if isMap then .selectKey (.named key) else .values [key]

def Function.body (f : Function) (scope : Scope) (mode : Mode) (name : String) (arg : Expr) :
    Except QueryFault Traversal :=
  match f with
  | .id => .ok (match mode with
    | .raw => [.id]
    | .result => [.idTag [.id]])
  | .labels => .ok [.label, .fold]
  | .type => .ok [.label]
  | .keys => do
    if ← arg.isMap scope then return [.selectColumn .keys]
    return [.properties [], .key, .dedup, .fold]
  | .startNode => .ok (.outV :: endTag)
  | .endNode => .ok (.inV :: endTag)
  | _ =>
    match CustomFunction.ofCypherName? name with
    | some custom => .ok [.apply custom]
    | none => .error (.unsupported ("function " ++ name ++ "()"))
where
  endTag : Traversal := match mode with
    | .raw => []
    | .result => [.nodeTag]

/-- Tests whether the element or map at hand has a key; null stays null. -/
def Step.hasAccess (isMap : Bool) (key : String) : Step :=
  .unlessNull [.choose (.traversal [.access isMap key]) [.constant (.bool true)]
    [.constant (.bool false)]]

/-! ## Functions of a path -/

def Scope.pathArgument (scope : Scope) (name : String) (arg : Expr) : Except QueryFault PathShape :=
  do
  let misfit : QueryFault :=
    .invalidArgument "path function" (name ++ "() expects a path variable, got `" ++
      arg.text ++ "`")
  match arg with
  | .var v =>
    let binding ← scope.lookup v "path function"
    if binding.kind == .path then scope.lookupPath v "path function" else throw misfit
  | _ => throw misfit

/-! ## Lists of integers -/

/-- The largest list that a literal range may give. -/
def maxRangeLength : Nat := 10000

/-- The number of integers from a start to an end in steps of a given width; none when the width is
zero, or when the number is no 64-bit integer. -/
def rangeLength? (start stop step : Int64) : Option Nat :=
  let s := start.toInt
  let e := stop.toInt
  let d := step.toInt
  if d = 0 then none
  else if (0 < d && e < s) || (d < 0 && s < e) then some 0
  else
    let n := Int.tdiv (e - s) d + 1
    if n ≤ Int64.maxValue.toInt then some n.toNat else none

/-- The member of a range at a place.  The product is computed first, and may be too large where the
member is not. -/
def rangeMember (arithmetic : WordArithmetic) (start step : Int64) (i : Nat) :
    Except QueryFault Int64 := do
  arithmetic.add start (← arithmetic.mul (.ofNat i) step)

/-- The integers from a start to an end in steps of a given width.  Too many of them, or a width of
zero, is an error when the program runs.  A product that has more than 64 bits is what the
arithmetic makes of it: it wraps around in a build without overflow checks, and the translation
stops with `QueryFault.overflow` in a build with them. -/
def rangeTraversal (arithmetic : WordArithmetic) (start stop step : Int64) :
    Except QueryFault Traversal :=
  match (rangeLength? start stop step).filter (· ≤ maxRangeLength) with
  | some n => do
    let members ← (List.range n).mapM (rangeMember arithmetic start step)
    return [.constant (.list (members.map .int))]
  | none => return [.constant (.string EngineFault.invalidRangeName), .apply .raise]

/-- The traversal of a range.  Its bounds must be literals. -/
def rangeOf (arithmetic : WordArithmetic) (args : List Expr) : Except QueryFault Traversal :=
  let bounds? := args.mapM fun
    | .literal (.int i) => some i
    | _ => none
  match bounds? with
  | some [start, stop] => rangeTraversal arithmetic start stop 1
  | some [start, stop, step] => rangeTraversal arithmetic start stop step
  | some _ => .error (.arity "range" "two or three")
  | none => .error (.unsupported "range() with non-literal arguments")

end CypherGremlin
