import CypherGremlin.Statement.Draft

/-!
# MATCH

A pattern becomes steps that walk along it and label what they meet.  An element whose variable is
in scope is compared with what the variable holds; any other gets a label, which is its variable or
a number.  Two relationships of one clause that were both labelled here must be different.

OPTIONAL MATCH runs these steps in the first arm of a choice.  The second arm gives null to the
variables that the first would bind; both arms end in a map of these variables, from which they are
bound again.
-/

namespace CypherGremlin

/-- What matching has produced so far: the steps, and the labels of the relationships that must
differ. -/
structure Matched where
  steps : Traversal := []
  relationships : List Label := []

/-- One after the other. -/
def Matched.append (a b : Matched) : Matched :=
  ⟨a.steps ++ b.steps, a.relationships ++ b.relationships⟩

namespace Matching

def bound? (scope : Scope) (var : Option String) : Option String := var.filter scope.binds

def start (isOptional : Bool) (node : NodePattern) : Drafting Traversal := do
  let scope ← Drafting.scope
  match bound? scope node.var with
  | some var =>
    let binding ← scope.expectKind var .node "MATCH"
    let tests ← NodePattern.tests node
    return binding.select var ++ tests
  | none =>
    let tests ← NodePattern.tests node
    let label ← Drafting.bindElement node.var .node isOptional nodeContext
    return .V :: tests ++ [.as label]

/-- The relationship of a hop.  The result is its label, the steps, and the label again if it was
bound here. -/
def relationship (isOptional : Bool) (rel : RelPattern) : Drafting (Label × Matched) := do
  RelPattern.checkLength rel
  rel.types.forM fun type => checkName type "relationship type"
  let tests ← propertyTests rel.properties
  let steps := rel.direction.edgeStep rel.types :: tests
  let scope ← Drafting.scope
  match bound? scope rel.var with
  | some var =>
    let _ ← scope.expectKind var .relationship "MATCH"
    return (.named var, ⟨steps ++ [.whereLabel .eq (.named var)], []⟩)
  | none =>
    let label ← Drafting.bindElement rel.var .relationship isOptional relationshipContext
    return (label, ⟨steps ++ [.as label], [label]⟩)

/-- The node of a hop.  The result is its label and the steps. -/
def node (isOptional : Bool) (node : NodePattern) : Drafting (Label × Traversal) := do
  let scope ← Drafting.scope
  match bound? scope node.var with
  | some var =>
    let _ ← scope.expectKind var .node "MATCH"
    let tests ← NodePattern.tests node
    return (.named var, .whereLabel .eq (.named var) :: tests)
  | none =>
    let tests ← NodePattern.tests node
    let label ← Drafting.bindElement node.var .node isOptional nodeContext
    return (label, tests ++ [.as label])

/-- The hop at a position, counted from one.  In a named path its relationship gets a marker, by
which the path knows it. -/
def hop (isOptional : Bool) (path : Option String) (position : Nat) (hop : Hop) :
    Drafting (List PathElement × Matched) := do
  let (relLabel, matched) ← relationship isOptional hop.rel
  let (marker, marking) : Label × Traversal := match path with
    | some path =>
      let marker := Label.token (.pathEdge (path ++ "." ++ toString position))
      (marker, [.as marker])
    | none => (relLabel, [])
  let (nodeLabel, nodeSteps) ← node isOptional hop.node
  return ([⟨marker, .relationship⟩, ⟨nodeLabel, .node⟩],
    { matched with steps := matched.steps ++ marking ++ [hop.rel.direction.nodeStep] ++ nodeSteps })

def hops (isOptional : Bool) (path : Option String) :
    Nat → List Hop → Drafting (List PathElement × Matched)
  | _, [] => return ([], {})
  | position, h :: rest => do
    let (elements, matched) ← hop isOptional path position h
    let (elements', matched') ← hops isOptional path (position + 1) rest
    return (elements ++ elements', matched.append matched')

def pattern (isOptional : Bool) (p : Pattern) : Drafting Matched := do
  if let some path := p.path then
    checkName path "path variable"
    if isOptional then throw (.unsupported "named path in OPTIONAL MATCH")
  let steps ← start isOptional p.start
  let (elements, matched) ← hops isOptional p.path 1 p.hops
  match p.path with
  | none => return Matched.append ⟨steps, []⟩ matched
  | some path =>
    let marker := Label.token (.pathStart path)
    Drafting.modifyScope (·.declarePath path ⟨⟨marker, .node⟩ :: elements⟩)
    return Matched.append ⟨steps ++ [.as marker], []⟩ matched

def patterns (isOptional : Bool) : List Pattern → Drafting Matched
  | [] => return {}
  | p :: rest => do
    let matched ← pattern isOptional p
    return matched.append (← patterns isOptional rest)

def differences : List Label → Traversal
  | [] => []
  | l :: rest => rest.map (fun r => .filter [.select [l], .whereLabel .neq r]) ++ differences rest

def all (isOptional : Bool) (ps : List Pattern) (condition : Option Expr) : Drafting Traversal := do
  let matched ← patterns isOptional ps
  let tests ← Drafting.condition condition
  return matched.steps ++ differences matched.relationships ++ tests

/-- The second arm of an optional match: null for each variable. -/
def nulls (slots : List Label) (vars : List String) : Traversal :=
  [.constant (.token .nonexistent), .as (.token .unused)] ++
    (vars.flatMap fun var => [.constant .null, .as (.named var)]) ++ [.select slots]

def optionally (ps : List Pattern) (condition : Option Expr) : Drafting Traversal := do
  let before := (← Drafting.scope).vars.length
  let matched ← all true ps condition
  let introduced := (Table.keys (← Drafting.scope).vars).drop before
  let slots := introduced.map Label.named ++ [.token .unused]
  let choice := Step.coalesce
    [matched ++ [.as (.token .unused), .select slots], nulls slots introduced]
  if introduced.isEmpty then return [choice]
  let row ← Drafting.fresh .freshId
  return choice :: rebinding row introduced

end Matching

def matchSteps (isOptional : Bool) (ps : List Pattern) (condition : Option Expr) :
    Drafting Traversal :=
  if isOptional then Matching.optionally ps condition else Matching.all false ps condition

end CypherGremlin
