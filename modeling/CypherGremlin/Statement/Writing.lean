import CypherGremlin.Statement.Draft

/-!
# CREATE, MERGE, SET and REMOVE

CREATE adds elements one after another.  MERGE takes what it finds and creates it only if nothing is
found, for a single node or for a single relationship between nodes that are in scope.  SET and
REMOVE run beside the rows, so that they neither add nor drop any.
-/

namespace CypherGremlin

/-! ## CREATE -/

namespace Creating

/-- The steps that give an element its properties.  A null is not stored. -/
def properties : List (String × Expr) → Drafting Traversal
  | [] => return []
  | (key, e) :: rest => do
    checkName key "property key"
    let steps : Traversal ← match e with
      | .literal .null => pure []
      | .literal _ | .parameter _ => do pure [.property key (← e.propertyConstant key)]
      | _ => do pure [.propertyFrom key (← Drafting.value e .raw)]
    return steps ++ (← properties rest)

/-- A node of the pattern: one that is in scope, or a new one. -/
def node (pattern : NodePattern) : Drafting (Label × Traversal) := do
  let scope ← Drafting.scope
  match pattern.var.filter scope.binds with
  | some var =>
    if !pattern.labels.isEmpty || !pattern.properties.isEmpty then
      throw (.invalidArgument "CREATE" ("variable '" ++ var ++ "' is already bound"))
    let _ ← scope.expectKind var .node "CREATE"
    return (.named var, [])
  | none =>
    let nodeLabel ← match pattern.labels with
      | [] => pure none
      | [l] => do
        checkName l "node label"
        pure (some l)
      | _ => throw (.unsupported "CREATE of a node with multiple labels")
    let assignments ← properties pattern.properties
    let label ← Drafting.bindElement pattern.var .node false nodeContext
    return (label, .addV nodeLabel :: assignments ++ [.as label])

/-- The source and the target of a relationship that leads from the first node to the second in the
given direction. -/
def ends? (d : Direction) (first second : Label) : Option (Label × Label) :=
  match d with
  | .out => some (first, second)
  | .in => some (second, first)
  | .both => none

def relationship (rel : RelPattern) (first second : Label) : Drafting Traversal := do
  RelPattern.checkLength rel
  let type ← match rel.types with
    | [type] => pure type
    | _ => throw (.unsupported "CREATE of a relationship without exactly one type")
  checkName type "relationship type"
  match ends? rel.direction first second with
  | none => throw (.unsupported "CREATE of an undirected relationship")
  | some (source, target) =>
    let assignments ← properties rel.properties
    let label ← Drafting.bindElement rel.var .relationship false relationshipContext
    return .addE type source target :: assignments ++ [.as label]

def hops (previous : Label) : List Hop → Drafting Traversal
  | [] => return []
  | hop :: rest => do
    let (next, nodeSteps) ← node hop.node
    let relSteps ← relationship hop.rel previous next
    return nodeSteps ++ relSteps ++ (← hops next rest)

def pattern (p : Pattern) : Drafting Traversal := do
  if p.path.isSome then throw (.unsupported "named path in CREATE")
  let (first, steps) ← node p.start
  return steps ++ (← hops first p.hops)

end Creating

def createSteps : List Pattern → Drafting Traversal
  | [] => return []
  | p :: rest => do
    let steps ← Creating.pattern p
    return steps ++ (← createSteps rest)

/-! ## MERGE -/

namespace Merging

def constants (properties : List (String × Expr)) : Except QueryFault (List (String × Value)) :=
  properties.mapM fun (key, e) => do return (key, ← e.propertyConstant key)

def isStored : Value → Bool
  | .token .null => false
  | _ => true

def node (pattern : NodePattern) : Drafting Traversal := do
  let scope ← Drafting.scope
  if (pattern.var.filter scope.binds).isSome then
    throw (.unsupported "MERGE on an already bound variable")
  let nodeLabel ← match pattern.labels with
    | [] => pure none
    | [l] => pure (some l)
    | _ => throw (.unsupported "MERGE of a node with multiple labels")
  let tests ← NodePattern.tests pattern
  let values ← constants pattern.properties
  let assignments := (values.filter fun entry => isStored entry.2).map fun (key, v) =>
    Step.property key v
  let label ← Drafting.bindElement pattern.var .node false nodeContext
  return [.coalesce [.V :: tests, .addV nodeLabel :: assignments], .as label]

/-- An end of a relationship: a node in scope of which the pattern says nothing else. -/
def endpoint (scope : Scope) (pattern : NodePattern) : Except QueryFault Label :=
  match pattern.var.filter fun var =>
    scope.binds var && pattern.labels.isEmpty && pattern.properties.isEmpty with
  | some var => do
    let _ ← scope.expectKind var .node "MERGE"
    return .named var
  | none => .error (.unsupported "MERGE of a relationship whose endpoints are not bound nodes")

def relationship (start : NodePattern) (hop : Hop) : Drafting Traversal := do
  let scope ← Drafting.scope
  let first ← endpoint scope start
  let second ← endpoint scope hop.node
  let rel := hop.rel
  RelPattern.checkLength rel
  let type ← match rel.types with
    | [type] => pure type
    | _ => throw (.unsupported "MERGE of a relationship without exactly one type")
  checkName type "relationship type"
  match Creating.ends? rel.direction first second with
  | none => throw (.unsupported "MERGE of an undirected relationship")
  | some (source, target) =>
    let values ← constants rel.properties
    let find : Traversal :=
      [.select [source], .outE [type]] ++ (values.map fun (key, v) => .has key (.eq v)) ++
        [.filter [.inV, .whereLabel .eq target]]
    let create : Traversal :=
      .addE type source target :: values.map fun (key, v) => .property key v
    let label ← Drafting.bindElement rel.var .relationship false relationshipContext
    return [.coalesce [find, create], .as label]

end Merging

def mergeSteps (p : Pattern) : Drafting Traversal := do
  if p.path.isSome then throw (.unsupported "named path in MERGE")
  match p.hops with
  | [] => Merging.node p.start
  | [hop] => Merging.relationship p.start hop
  | _ => throw (.unsupported "MERGE of a multi-hop pattern")

/-! ## SET and REMOVE -/

namespace Updating

/-- The element that a clause writes to.  Where the variable is null nothing is written. -/
def target (scope : Scope) (var context : String) : Except QueryFault Traversal := do
  let binding ← scope.lookup var context
  match binding.kind with
  | .node | .relationship | .value => return binding.select var
  | kind => throw (.invalidArgument context
      ("variable '" ++ var ++ "' is a " ++ kind.title ++ ", not a graph element"))

/-- The steps that remove a property from the element at hand. -/
def removal (key : String) : Traversal := [.properties [key], .drop]

/-- The steps that give a property of the element at hand a value.  Null removes it. -/
def assignment (key : String) (e : Expr) : Drafting Traversal :=
  match e with
  | .literal .null => return removal key
  | _ => do
    match ← e.constant? with
    | some v => return [.property key v]
    | none => return [.propertyFrom key (← Drafting.value e .raw)]

end Updating

def setSteps : List Assignment → Drafting Traversal
  | [] => return []
  | item :: rest => do
    let target ← Updating.target (← Drafting.scope) item.var "SET"
    checkName item.key "property key"
    let write ← Updating.assignment item.key item.value
    return .sideEffect (target ++ write) :: (← setSteps rest)

def removeSteps (scope : Scope) (items : List PropertyRef) : Except QueryFault Traversal :=
  items.mapM fun item => do
    let target ← Updating.target scope item.var "REMOVE"
    checkName item.key "property key"
    return .sideEffect (target ++ Updating.removal item.key)

end CypherGremlin
