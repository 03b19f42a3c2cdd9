import CypherGremlin.Fault
import CypherGremlin.Traversal.Basic

/-!
# Scoping of labels

A label must be bound before it is referred to.  A label that `as` binds is visible to the later
steps of its traversal and to the traversals inside them; it is not visible outside of the traversal
that binds it.  A bucket that `aggregate` fills is visible everywhere from then on.

`Traversal.checkLabels` reports the first reference to an unbound label, in the order of
`Traversal.walk`.
-/

namespace CypherGremlin

def Step.references : Step → List Label
  | .select labels => labels
  | .addE _ source target => [source, target]
  | .whereLabel _ l | .cap l => [l]
  | _ => []

/-- A reference of the step to the label finds it, where the visible labels and the filled buckets
are given. -/
def Step.resolves (s : Step) (visible buckets : List Label) (l : Label) : Bool :=
  match s with
  | .cap _ => buckets.contains l
  | .whereLabel _ _ => visible.contains l || buckets.contains l
  | _ => visible.contains l

/-- The first reference of the step that finds nothing. -/
def Step.unresolved? (s : Step) (visible buckets : List Label) : Option Label :=
  s.references.find? fun l => !s.resolves visible buckets l

def Step.visibleAfter (visible : List Label) : Step → List Label
  | .as l => l :: visible
  | _ => visible

def Step.bucketsAfter (buckets : List Label) : Step → List Label
  | .aggregate l => l :: buckets
  | _ => buckets

mutual

/-- Checks the traversals inside a step.  The result is the buckets that are filled afterwards. -/
def Step.checkInside (visible buckets : List Label) : Step → Except QueryFault (List Label)
  | .propertyFrom _ t | .filter t | .not t | .sideEffect t | .map t | .flatMap t =>
    Traversal.checkScope visible buckets t
  | .and ts | .or ts | .coalesce ts | .union ts => Traversal.checkScopes visible buckets ts
  | .choose c yes no => do
    let buckets ← c.checkScope visible buckets
    let buckets ← Traversal.checkScope visible buckets yes
    Traversal.checkScope visible buckets no
  | .project entries => Traversal.checkEntryScopes visible buckets entries
  | .order keys => Traversal.checkKeyScopes visible buckets keys
  | .group k v => do
    let buckets ← Traversal.checkScope visible buckets k
    Traversal.checkScope visible buckets v
  | _ => .ok buckets

def Condition.checkScope (visible buckets : List Label) : Condition → Except QueryFault (List Label)
  | .predicate _ => .ok buckets
  | .traversal t => Traversal.checkScope visible buckets t

/-- Checks a traversal where some labels are visible and some buckets are filled.  The result is the
buckets that are filled afterwards. -/
def Traversal.checkScope (visible buckets : List Label) : List Step → Except QueryFault (List Label)
  | [] => .ok buckets
  | s :: rest =>
    match s.unresolved? visible buckets with
    | some l => .error (.undefinedLabel l.encode)
    | none => do
      let buckets ← s.checkInside visible buckets
      Traversal.checkScope (s.visibleAfter visible) (s.bucketsAfter buckets) rest

def Traversal.checkScopes (visible buckets : List Label) :
    List (List Step) → Except QueryFault (List Label)
  | [] => .ok buckets
  | t :: rest => do
    let buckets ← Traversal.checkScope visible buckets t
    Traversal.checkScopes visible buckets rest

def Traversal.checkEntryScopes (visible buckets : List Label) :
    List (Label × List Step) → Except QueryFault (List Label)
  | [] => .ok buckets
  | (_, t) :: rest => do
    let buckets ← Traversal.checkScope visible buckets t
    Traversal.checkEntryScopes visible buckets rest

def Traversal.checkKeyScopes (visible buckets : List Label) :
    List (List Step × SortOrder) → Except QueryFault (List Label)
  | [] => .ok buckets
  | (t, _) :: rest => do
    let buckets ← Traversal.checkScope visible buckets t
    Traversal.checkKeyScopes visible buckets rest

end

/-- Checks that every label of a program is bound before it is referred to. -/
def Traversal.checkLabels (t : Traversal) : Except QueryFault Unit :=
  (Traversal.checkScope [] [] t).map fun _ => ()

end CypherGremlin
