import CypherGremlin.Statement.Deleting
import CypherGremlin.Statement.Matching
import CypherGremlin.Statement.Projecting
import CypherGremlin.Statement.Writing
import CypherGremlin.Traversal.Scoping

/-!
# The statement of a query

The clauses are lowered one after another, and what they add stands in this order in the program.  A
clause that works on rows gets a first row if no clause has given any.  At the end staged deletions
are carried out, and a query that returns nothing drops its rows.

`Query.statement` is the result.  It is checked for scoping once more, because a path in scope can
outlive the labels of its elements.
-/

namespace CypherGremlin

def Traversal.oneRow : Traversal := [.inject [.token .start]]

/-- The clause works on rows.  MATCH and CREATE can also stand at the beginning. -/
def Clause.needsRow : Clause → Bool
  | .match isOptional _ _ => isOptional
  | .merge _ | .unwind _ _ | .with _ | .return _ => true
  | .create _ | .set _ | .remove _ | .delete _ _ => false

def Clause.isReturn : Clause → Bool
  | .return _ => true
  | _ => false

def Clause.lower : Clause → Drafting (List Column × Traversal)
  | .match isOptional ps condition => do return ([], ← matchSteps isOptional ps condition)
  | .unwind e name => do return ([], ← unwindSteps e name)
  | .with p => do return ([], ← withSteps p)
  | .return p => returnSteps p
  | .create ps => do return ([], ← createSteps ps)
  | .merge p => do return ([], ← mergeSteps p)
  | .set items => do return ([], ← setSteps items)
  | .remove items => do return ([], ← removeSteps (← Drafting.scope) items)
  | .delete detach targets => do return ([], ← deleteSteps detach targets)

/-- Some clauses after a program.  RETURN must be the last. -/
def lowerClauses (root : Traversal) : List Clause → Drafting Statement
  | [] => return ⟨root, []⟩
  | clause :: rest => do
    if clause.isReturn && !rest.isEmpty then throw (.invalidQuery "RETURN must be the final clause")
    let (columns, steps) ← clause.lower
    let started := if root.isEmpty && clause.needsRow then Traversal.oneRow else root
    let statement ← lowerClauses (started ++ steps) rest
    return { statement with columns := columns ++ statement.columns }

/-- The steps after the last clause. -/
def closing (buckets : Buckets) (returns : Bool) : Traversal :=
  if buckets.plain || buckets.detached then Deleting.phase buckets returns
  else if returns then []
  else [.barrier, .limit 0]

def Query.returns (q : Query) : Bool := (q.clauses.getLast?.map Clause.isReturn).getD false

def Query.statement (q : Query) : Except QueryFault Statement := do
  if q.clauses.isEmpty then throw (.invalidQuery "query has no clauses")
  let (statement, draft) ← (lowerClauses [] q.clauses).run {}
  let traversal := statement.traversal ++ closing draft.buckets q.returns
  Traversal.checkLabels traversal
  return { statement with traversal }

end CypherGremlin
