import CypherGremlin.Query.Basic
import CypherGremlin.Statement.Basic
import CypherGremlin.Statement.Scope

/-!
# Tagged results

An engine returns an element as a map, and a map of the query looks the same.  So what a query hands
back is tagged: an element is a map under a token that says what it is, and the elements of a path
are tagged with tokens that say where they stand.  `Row` reads the tags.
-/

namespace CypherGremlin

/-- What a value is for. -/
inductive Mode where
  /-- Later steps use it. -/
  | raw
  /-- The query hands it back. -/
  | result
deriving DecidableEq, Repr

/-! ## Tags -/

def Step.unlessNull (inner : Traversal) : Step :=
  .choose (.predicate (.neq .null)) inner Traversal.null

/-- The tag of an element: its map under a token. -/
def Step.elementTag (token : Token) : Step := .project [(.token token, [.valueMap true])]

def Step.nodeTag : Step := .elementTag .element

/-- The tag of a relationship: its map under a token, and the identities of its ends. -/
def Step.relationshipTag (token : Token) : Step :=
  .project
    [(.token token, [.valueMap true]), (.token .inV, [.inV, .id]), (.token .outV, [.outV, .id])]

def ElementKind.tag : ElementKind → Step
  | node => .nodeTag
  | relationship => .relationshipTag .relationship

def Step.idTag (inner : Traversal) : Step := .project [(.token .id, inner)]

/-! ## Paths -/

/-- The tag of an element of a path, given its position.  The markers of the path become the tokens.
-/
def PathElement.tag (position : Nat) (element : PathElement) : Step :=
  match position, element.label with
  | 0, .token t => .elementTag t
  | _, .token (.pathEdge edge) => .relationshipTag (.pathEdge edge)
  | _, _ => element.kind.tag

def PathElement.read (mode : Mode) (position : Nat) (element : PathElement) : Traversal :=
  .select [element.label] :: match mode with
    | .raw => []
    | .result => [element.tag position]

def PathShape.read (shape : PathShape) (mode : Mode) : Traversal :=
  [.union (shape.elements.mapIdx fun position element => element.read mode position), .fold]

def PathShape.readKind (shape : PathShape) (mode : Mode) (kind : ElementKind) : Traversal :=
  let branches := (shape.elements.filter (·.kind == kind)).map fun element =>
    .select [element.label] :: match mode with
      | .raw => []
      | .result => [element.kind.tag]
  if branches.isEmpty then [.constant (.list [])] else [.union branches, .fold]

/-! ## Variables -/

/-- What a variable holds. -/
def Scope.read (scope : Scope) (var : String) (mode : Mode) : Except QueryFault Traversal := do
  let binding ← scope.lookup var "expression"
  let select : Step := .select [.named var]
  match binding.kind, mode with
  | .node, .result => return [select, .unlessNull [ElementKind.tag .node]]
  | .relationship, .result => return [select, .unlessNull [ElementKind.tag .relationship]]
  | .path, _ => return (← scope.lookupPath var "path").read mode
  | _, _ => return [select]

end CypherGremlin
