import CypherGremlin.Traversal.Basic

/-!
# Going through a traversal

A step holds traversals, so a property of "all steps" is about those of nested traversals too.

* `Step.children` are the traversals that a step holds, in the order of its arguments.
* `Traversal.walk` lists every step, outer ones before the inner ones that they hold.
* `Traversal.nested` lists every traversal, outer ones first.
* `Traversal.mapBottomUp` changes every traversal, inner ones first.

All but the first follow the structure of the steps and so are functions on each of the containers
that steps use.
-/

namespace CypherGremlin

def Step.children : Step → List Traversal
  | .propertyFrom _ t | .filter t | .not t | .sideEffect t | .map t | .flatMap t => [t]
  | .and ts | .or ts | .coalesce ts | .union ts => ts
  | .choose (.traversal t) yes no => [t, yes, no]
  | .choose (.predicate _) yes no => [yes, no]
  | .project entries => entries.map Prod.snd
  | .order keys => keys.map Prod.fst
  | .group k v => [k, v]
  | _ => []

/-! ## All steps -/

mutual

def Step.walk (s : Step) : List Step :=
  s :: match s with
    | .propertyFrom _ t | .filter t | .not t | .sideEffect t | .map t | .flatMap t =>
      Traversal.walk t
    | .and ts | .or ts | .coalesce ts | .union ts => Traversal.walkAll ts
    | .choose c yes no => c.walk ++ (Traversal.walk yes ++ Traversal.walk no)
    | .project entries => Traversal.walkEntries entries
    | .order keys => Traversal.walkKeys keys
    | .group k v => Traversal.walk k ++ Traversal.walk v
    | _ => []

def Condition.walk : Condition → List Step
  | .predicate _ => []
  | .traversal t => Traversal.walk t

/-- All steps of a traversal, at any depth, outer ones before inner ones. -/
def Traversal.walk : List Step → List Step
  | [] => []
  | s :: rest => s.walk ++ Traversal.walk rest

def Traversal.walkAll : List (List Step) → List Step
  | [] => []
  | t :: rest => Traversal.walk t ++ Traversal.walkAll rest

def Traversal.walkEntries : List (Label × List Step) → List Step
  | [] => []
  | (_, t) :: rest => Traversal.walk t ++ Traversal.walkEntries rest

def Traversal.walkKeys : List (List Step × SortOrder) → List Step
  | [] => []
  | (t, _) :: rest => Traversal.walk t ++ Traversal.walkKeys rest

end

/-- The number of steps at any depth. -/
def Traversal.deepLength (t : Traversal) : Nat := (Traversal.walk t).length

/-! ## All traversals -/

/-- A traversal and all traversals inside it, at any depth, outer ones first. -/
def Traversal.nested (t : Traversal) : List Traversal :=
  t :: (Traversal.walk t).flatMap Step.children

mutual

def Step.inside : Step → List (List Step)
  | .propertyFrom _ t | .filter t | .not t | .sideEffect t | .map t | .flatMap t =>
    Traversal.inside t ++ [t]
  | .and ts | .or ts | .coalesce ts | .union ts => Traversal.insideAll ts
  | .choose c yes no => c.inside ++ (Traversal.inside yes ++ [yes]) ++ (Traversal.inside no ++ [no])
  | .project entries => Traversal.insideEntries entries
  | .order keys => Traversal.insideKeys keys
  | .group k v => (Traversal.inside k ++ [k]) ++ (Traversal.inside v ++ [v])
  | _ => []

/-- The traversals inside a condition, inner ones first. -/
def Condition.inside : Condition → List (List Step)
  | .predicate _ => []
  | .traversal t => Traversal.inside t ++ [t]

def Traversal.inside : List Step → List (List Step)
  | [] => []
  | s :: rest => s.inside ++ Traversal.inside rest

def Traversal.insideAll : List (List Step) → List (List Step)
  | [] => []
  | t :: rest => (Traversal.inside t ++ [t]) ++ Traversal.insideAll rest

def Traversal.insideEntries : List (Label × List Step) → List (List Step)
  | [] => []
  | (_, t) :: rest => (Traversal.inside t ++ [t]) ++ Traversal.insideEntries rest

def Traversal.insideKeys : List (List Step × SortOrder) → List (List Step)
  | [] => []
  | (t, _) :: rest => (Traversal.inside t ++ [t]) ++ Traversal.insideKeys rest

end

/-- A traversal and all traversals inside it in the order in which `Traversal.mapBottomUp` changes
them. -/
def Traversal.bottomUp (t : Traversal) : List Traversal := Traversal.inside t ++ [t]

/-! ## Changing all traversals -/

mutual

def Step.mapInside (f : List Step → List Step) : Step → Step
  | .propertyFrom key t => .propertyFrom key (f (Traversal.mapInside f t))
  | .filter t => .filter (f (Traversal.mapInside f t))
  | .not t => .not (f (Traversal.mapInside f t))
  | .sideEffect t => .sideEffect (f (Traversal.mapInside f t))
  | .map t => .map (f (Traversal.mapInside f t))
  | .flatMap t => .flatMap (f (Traversal.mapInside f t))
  | .and ts => .and (Traversal.mapInsideAll f ts)
  | .or ts => .or (Traversal.mapInsideAll f ts)
  | .coalesce ts => .coalesce (Traversal.mapInsideAll f ts)
  | .union ts => .union (Traversal.mapInsideAll f ts)
  | .choose c yes no =>
    .choose (c.mapInside f) (f (Traversal.mapInside f yes)) (f (Traversal.mapInside f no))
  | .project entries => .project (Traversal.mapInsideEntries f entries)
  | .order keys => .order (Traversal.mapInsideKeys f keys)
  | .group k v => .group (f (Traversal.mapInside f k)) (f (Traversal.mapInside f v))
  | s => s

def Condition.mapInside (f : List Step → List Step) : Condition → Condition
  | .predicate p => .predicate p
  | .traversal t => .traversal (f (Traversal.mapInside f t))

def Traversal.mapInside (f : List Step → List Step) : List Step → List Step
  | [] => []
  | s :: rest => s.mapInside f :: Traversal.mapInside f rest

def Traversal.mapInsideAll (f : List Step → List Step) : List (List Step) → List (List Step)
  | [] => []
  | t :: rest => f (Traversal.mapInside f t) :: Traversal.mapInsideAll f rest

def Traversal.mapInsideEntries (f : List Step → List Step) :
    List (Label × List Step) → List (Label × List Step)
  | [] => []
  | (l, t) :: rest => (l, f (Traversal.mapInside f t)) :: Traversal.mapInsideEntries f rest

def Traversal.mapInsideKeys (f : List Step → List Step) :
    List (List Step × SortOrder) → List (List Step × SortOrder)
  | [] => []
  | (t, o) :: rest => (f (Traversal.mapInside f t), o) :: Traversal.mapInsideKeys f rest

end

/-- Changes every traversal inside a traversal, inner ones first, and then the traversal. -/
def Traversal.mapBottomUp (f : Traversal → Traversal) (t : Traversal) : Traversal :=
  f (Traversal.mapInside f t)

end CypherGremlin
