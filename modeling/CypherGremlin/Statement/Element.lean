import CypherGremlin.Statement.Constant

/-!
# Elements of a pattern

The steps that hold for a node or a relationship wherever its pattern stands, and the pattern as a
test: it holds where it can be followed from variables in scope.
-/

namespace CypherGremlin

/-! ## Relationships and their ends -/

def Direction.edgeStep (d : Direction) (types : List String) : Step :=
  match d with
  | .out => .outE types
  | .in => .inE types
  | .both => .bothE types

/-- The step from a relationship, reached in a direction, to the node at its far end. -/
def Direction.nodeStep : Direction → Step
  | .out => .inV
  | .in => .outV
  | .both => .otherV

/-- A relationship of a pattern must stand for one hop. -/
def RelPattern.checkLength (rel : RelPattern) : Except QueryFault Unit :=
  if rel.length.isSome then .error (.unsupported "variable-length relationship") else .ok ()

/-! ## Tests of an element -/

def propertyTests (properties : List (String × Expr)) : Except QueryFault Traversal :=
  properties.mapM fun (key, e) => do return .has key (.eq (← e.propertyConstant key))

def labelTests (labels : List String) : Except QueryFault Traversal :=
  labels.mapM fun l => do
    checkName l "node label"
    return .hasLabel [l]

def NodePattern.tests (node : NodePattern) : Except QueryFault Traversal := do
  let labels ← labelTests node.labels
  let properties ← propertyTests node.properties
  return labels ++ properties

/-! ## A pattern as a test -/

/-- The steps that follow a hop of a pattern that is a test.  The message names the pattern. -/
def Hop.testSteps (scope : Scope) (pattern : Pattern) (hop : Hop) : Except QueryFault Traversal :=
  do
  RelPattern.checkLength hop.rel
  if hop.rel.var.isSome then
    throw (.unsupported ("relationship variable in pattern predicate `" ++ pattern.text ++ "`"))
  let relTests ← propertyTests hop.rel.properties
  let joined ← match hop.node.var with
    | none => pure []
    | some var =>
      if scope.binds var then pure [Step.whereLabel .eq (.named var)]
      else throw (.unsupported ("new variable '" ++ var ++ "' in pattern predicate"))
  let nodeTests ← NodePattern.tests hop.node
  return [hop.rel.direction.edgeStep hop.rel.types] ++ relTests ++ [hop.rel.direction.nodeStep] ++
    joined ++ nodeTests

/-- The traversal that emits something exactly where the pattern matches. -/
def Pattern.testTraversal (scope : Scope) (pattern : Pattern) : Except QueryFault Traversal := do
  let bound? := pattern.start.var.filter scope.binds
  match bound? with
  | none =>
    throw (.unsupported ("pattern predicate `" ++ pattern.text ++ "` without a bound start node"))
  | some var =>
    let startTests ← NodePattern.tests pattern.start
    let hops ← pattern.hops.mapM (Hop.testSteps scope pattern)
    return .select [.named var] :: startTests ++ hops.flatten

end CypherGremlin
