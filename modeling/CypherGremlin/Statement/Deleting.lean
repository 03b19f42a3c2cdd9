import CypherGremlin.Statement.Draft

/-!
# DELETE

A clause that deletes only collects: every element goes into one of two buckets.  After the last
clause the whole program is brought together once, and then it is checked that no node of the plain
bucket has a relationship that stays, and only then the content of the buckets is removed.
-/

namespace CypherGremlin

namespace Deleting

def plainBucket : Label := .token .delete

/-- The bucket of relationships and of nodes that are deleted together with theirs. -/
def detachedBucket : Label := .token .detachDelete

def bucket (detach : Bool) : Drafting Label := do
  modify fun draft => { draft with buckets :=
    if detach then { draft.buckets with detached := true } else { draft.buckets with plain := true }
      }
  return if detach then detachedBucket else plainBucket

def stage (label : Label) (detach : Bool) : Drafting Traversal := do
  return [.sideEffect [.select [label], .notNull, .aggregate (← bucket detach)]]

def stageIf (label : Label) (test : CustomPredicate) (bucket : Label) : Step :=
  .sideEffect [.select [label], .is (.custom test none), .aggregate bucket]

def stageDynamic (label : Label) (detach : Bool) : Drafting Traversal := do
  let nodes ← bucket detach
  let relationships ← bucket true
  return [stageIf label .isNode nodes, stageIf label .isRelationship relationships]

def stageElement (detach : Bool) (element : PathElement) : Drafting Traversal :=
  match element.kind with
  | .node => stage element.label detach
  | .relationship => stage element.label true

/-- Collects what an expression stands for. -/
def target (detach : Bool) (e : Expr) : Drafting Traversal :=
  match e with
  | .var var => do
    let scope ← Drafting.scope
    match (← scope.lookup var "DELETE").kind with
    | .node => stage (.named var) detach
    | .relationship => stage (.named var) true
    | .path => do
      let shape ← scope.lookupPath var "DELETE"
      return (← shape.elements.mapM (stageElement detach)).flatten
    | .value | .map => stageDynamic (.named var) detach
  | _ => throw (.unsupported ("DELETE of `" ++ e.text ++ "`"))

/-- Raises an error if a node of the plain bucket has a relationship that stays.  What is in the
other bucket does not stay. -/
def check (detached : Bool) : Step :=
  let staying : Step := .whereLabel .without detachedBucket
  let nodes : Traversal := if detached then [staying] else []
  let ends : Traversal := if detached then [staying, .otherV, staying] else []
  .sideEffect ([.cap plainBucket, .unfold, .dedup] ++ nodes ++
    [.filter (.bothE [] :: ends), .constant (.string EngineFault.connectedNodeName), .apply .raise])

def removal (bucket : Label) : Step := .sideEffect [.cap bucket, .unfold, .dedup, .drop]

/-- The steps after the last clause, which delete what was collected.  The rows are kept under a
label meanwhile, and are given back if the query returns them. -/
def phase (buckets : Buckets) (returns : Bool) : Traversal :=
  let rows : Label := .token .deleteOnce
  [.fold, .as rows] ++
    (if buckets.plain then [check buckets.detached] else []) ++
    (if buckets.detached then [removal detachedBucket] else []) ++
    (if buckets.plain then [removal plainBucket] else []) ++
    (if returns then [.select [rows], .unfold] else [.limit 0])

end Deleting

def deleteSteps (detach : Bool) : List Expr → Drafting Traversal
  | [] => return []
  | e :: rest => do
    let steps ← Deleting.target detach e
    return steps ++ (← deleteSteps detach rest)

end CypherGremlin
