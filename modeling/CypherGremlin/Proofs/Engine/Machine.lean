import CypherGremlin.Proofs.Engine.Evaluation
import CypherGremlin.Proofs.Except
import Mathlib.Data.List.Sort

/-!
# The operations of an engine

An engine that keeps its graph in memory runs a program eagerly: each operation consumes the whole
stream of traversers and gives the next one.  A `Transform` is what an operation does.  Most of them
treat the traversers one after another, and the following say how:

* `Machine.each` gives some traversers for every traverser;
* `Machine.emit` gives some objects for every object, and the traverser carries each on;
* `Machine.keep` keeps the traversers whose object passes a test;
* `Machine.gather` gives new traversers, without labels, for all objects together.

An operation that has a traversal as its argument gets the transform of that traversal.  Such a
child runs on a copy of the traverser and sees its labels; labels that it adds are lost when it
hands objects back.
-/

namespace CypherGremlin

/-! ## Traversers -/

/-- A place in the graph, with the labels that were put on the way, the latest first. -/
structure Traverser where
  obj : Obj
  labels : Table String Obj
  /-- The vertex from which an edge was reached. -/
  origin : Option Int64

namespace Traverser

/-- A traverser that has come from nowhere. -/
def fresh (obj : Obj) : Traverser := ⟨obj, [], none⟩

/-- The traverser with another object. -/
def carry (t : Traverser) (obj : Obj) : Traverser := ⟨obj, t.labels, none⟩

/-- The traverser with its object under a label. -/
def mark (t : Traverser) (key : String) : Traverser := { t with labels := (key, t.obj) :: t.labels }

/-- What was labelled last with the given label. -/
def label? (t : Traverser) (key : String) : Option Obj := Table.get? t.labels key

end Traverser

/-- The value under a text in a map. -/
def Obj.get? (key : String) : Obj → Option Obj
  | .map entries => entries.findSome? fun
    | (.string k, v) => if k = key then some v else none
    | _ => none
  | _ => none

/-- What a name stands for at a traverser: an entry of the map at hand, else a bucket, else a label.
-/
def Traverser.find? (t : Traverser) (buckets : Table String (List Obj)) (key : String) :
    Option Obj :=
  t.obj.get? key <|> (Table.get? buckets key).map .list <|> t.label? key

/-! ## Runs -/

/-- What a run changes: the graph and the buckets. -/
structure World where
  graph : Graph
  buckets : Table String (List Obj)

/-- A computation of an engine. -/
abbrev Run := StateT World (Except Halt)

/-- What an operation does with the stream of traversers. -/
abbrev Transform := List Traverser → Run (List Traverser)

namespace Run

def observe {α : Type} (f : World → Except Halt α) : Run α := fun w => (f w).map (·, w)

def update {α : Type} (f : Graph → Except Halt (α × Graph)) : Run α := fun w =>
  (f w.graph).map fun (a, graph) => (a, { w with graph })

def result {α : Type} (x : Except Halt α) : Run α := observe fun _ => x

/-- Adds objects to a bucket. -/
def fill (key : String) (objs : List Obj) : Run Unit := fun w =>
  .ok ((),
    { w with buckets := Table.put w.buckets key ((Table.get? w.buckets key).getD [] ++ objs) })

/-- What a name stands for at a traverser. -/
def resolve (t : Traverser) (key : String) : Run (Option Obj) :=
  observe fun w => .ok (t.find? w.buckets key)

/-- Changes the element of a handle. -/
def modifyElement (obj : Obj) (f : Element → Element) : Run Unit :=
  update fun g => do
    let _ ← g.element obj
    return ((), g.modify obj f)

variable {α β : Type}

/-- Looking at the world twice is looking at it once. -/
lemma observe_bind (f : World → Except Halt α) (g : World → α → Except Halt β) :
    (observe f >>= fun a => observe fun w => g w a) = observe fun w => f w >>= g w := by
  funext w
  change (observe f w >>= fun p => observe (fun w => g w p.1) p.2) = _
  cases hf : f w <;> simp [observe, hf, bind, Except.bind, Except.map]

lemma mapM_observe (f : World → α → Except Halt β) (as : List α) :
    (as.mapM fun a => observe fun w => f w a) = observe fun w => as.mapM (f w) := by
  induction as with
  | nil => rfl
  | cons a rest ih =>
    have hrest (b : β) : (observe (fun w => rest.mapM (f w)) >>= fun bs => pure (b :: bs)) =
        observe fun w => rest.mapM (f w) >>= fun bs => pure (b :: bs) :=
      observe_bind (fun w => rest.mapM (f w)) fun _ bs => pure (b :: bs)
    simp only [List.mapM_cons, ih, hrest]
    exact observe_bind (fun w => f w a) fun w b => rest.mapM (f w) >>= fun bs => pure (b :: bs)

end Run

namespace Machine

open Run

/-! ## Forms of operations -/

/-- Gives some traversers for every traverser, one after another. -/
def each (f : Traverser → Run (List Traverser)) : Transform := fun ts => do
  return (← ts.mapM f).flatten

/-- Gives some objects for every object. -/
def emit (f : Obj → Run (List Obj)) : Transform := each fun t => do return (← f t.obj).map t.carry

/-- Gives one object for every object. -/
def emitOne (f : World → Obj → Except Halt Obj) : Transform :=
  emit fun obj => observe fun w => do return [← f w obj]

/-- Keeps the traversers that pass a test. -/
def keepBy (p : Traverser → Run Bool) : Transform :=
  each fun t => do return if ← p t then [t] else []

/-- Keeps the traversers whose object passes a test. -/
def keep (p : World → Obj → Except Halt Bool) : Transform :=
  keepBy fun t => observe fun w => p w t.obj

/-- Gives new traversers for all objects together. -/
def gather (f : World → List Obj → Except Halt (List Obj)) : Transform := fun ts => do
  return (← observe fun w => f w (ts.map Traverser.obj)).map .fresh

/-- Looking at the world for every traverser is looking at it once. -/
lemma each_observe (f : World → Traverser → Except Halt (List Traverser)) (ts : List Traverser) :
    each (fun t => observe fun w => f w t) ts = observe fun w =>
      do return (← ts.mapM (f w)).flatten := by
  rw [each, mapM_observe]
  exact observe_bind (fun w => ts.mapM (f w)) fun _ outs => pure outs.flatten

lemma emit_observe (f : World → Obj → Except Halt (List Obj)) :
    emit (fun obj => observe fun w => f w obj) =
      each fun t => observe fun w => do return (← f w t.obj).map t.carry :=
  congrArg each (funext fun t => observe_bind (fun w => f w t.obj) fun _ objs => pure
    (objs.map t.carry))

lemma keep_eq (p : World → Obj → Except Halt Bool) :
    keep p = each fun t => observe fun w => do return if ← p w t.obj then [t] else [] :=
  congrArg each (funext fun t => observe_bind (fun w => p w t.obj) fun _ kept => pure
    (if kept then [t] else []))

/-- Two looks at the world for every traverser are one, if the second always succeeds on what the
first gives. -/
lemma each_observe_bind {f g : World → Traverser → Except Halt (List Traverser)}
    {k : Traverser → List Traverser} (h : ∀ w t out, f w t = .ok out → ∀ o ∈ out, g w o = .ok (k o))
    (ts : List Traverser) :
    (each (fun t => observe fun w => f w t) ts >>= each fun t => observe fun w => g w t) =
      each (fun t => observe fun w => do return (← f w t).flatMap k) ts := by
  have heach : each (fun t => observe fun w => g w t) =
      fun outs => observe fun w => do return (← outs.mapM (g w)).flatten := funext (each_observe g)
  rw [each_observe, heach, observe_bind, each_observe]
  congr 1
  funext w
  rw [mapM_bind_pure]
  cases houts : ts.mapM (f w) with
  | error halt => rfl
  | ok outs =>
    have hk : ∀ o ∈ outs.flatten, g w o = .ok (k o) := by
      intro o ho
      obtain ⟨out, hout, ho⟩ := List.mem_flatten.1 ho
      obtain ⟨t, _, hout⟩ := exists_mem_of_mapM_eq_ok houts out hout
      exact h w t out hout o ho
    have hmap := mapM_of_forall_eq_ok hk
    change (outs.flatten.mapM (g w) >>= fun out => pure out.flatten) =
      .ok (outs.map (List.flatMap k)).flatten
    rw [hmap]
    change Except.ok (outs.flatten.map k).flatten = _
    rw [List.map_flatten, List.flatten_flatten, List.map_map]
    exact congrArg (fun outs => Except.ok (List.flatten outs))
      (List.map_congr_left fun out _ => by simp [List.flatMap])

/-! ## Children -/

/-- The objects that a child gives, carried on by the traverser. -/
def branch (child : Transform) (t : Traverser) : Run (List Traverser) := do
  return (← child [t]).map fun out => t.carry out.obj

/-- The first object that a child gives. -/
def first (child : Transform) (t : Traverser) : Run (Option Obj) := do
  return (← child [t]).head?.map Traverser.obj

/-- The first object that a child gives, where it has to give one. -/
def value (operator : String) (child : Transform) (t : Traverser) : Run Obj := do
  match ← first child t with
  | some v => return v
  | none => throw (.noValue operator)

/-- The child gives something. -/
def produces (child : Transform) (t : Traverser) : Run Bool := do
  return !(← child [t]).isEmpty

/-- All children give something.  The first that does not ends the search. -/
def everyProduces : List Transform → Traverser → Run Bool
  | [], _ => return true
  | child :: rest, t => do
    if ← produces child t then everyProduces rest t else return false

/-- One of the children gives something.  The first that does ends the search. -/
def someProduces : List Transform → Traverser → Run Bool
  | [], _ => return false
  | child :: rest, t => do
    if ← produces child t then return true else someProduces rest t

/-- What the first child gives that gives something. -/
def firstBranch : List Transform → Traverser → Run (List Traverser)
  | [], _ => return []
  | child :: rest, t => do
    let out ← branch child t
    if out.isEmpty then firstBranch rest t else return out

/-! ## Moving through the graph -/

/-- All vertices. -/
def V : Transform := emit fun _ => observe fun w => .ok (w.graph.vertices.entries.map (.vertex ·.1))

/-- All edges. -/
def E : Transform := emit fun _ => observe fun w => .ok (w.graph.edges.entries.map (.edge ·.1))

def edges (operator : String) (incident : Int64 → Edge → Bool) (types : List String) : Transform :=
  each fun t => observe fun w =>
    match t.obj with
    | .vertex v =>
      let found := w.graph.edges.entries.filter fun entry =>
        incident v entry.2 && (types.isEmpty || types.contains entry.2.label)
      .ok (found.map fun entry => { t.carry (.edge entry.1) with origin := some v })
    | obj => .error (.unfit operator obj)

/-- The edges out of a vertex. -/
def outE (types : List String) : Transform := edges "outE" (fun v edge => edge.source == v) types

/-- The edges into a vertex. -/
def inE (types : List String) : Transform := edges "inE" (fun v edge => edge.target == v) types

/-- The edges at a vertex. -/
def bothE (types : List String) : Transform :=
  edges "bothE" (fun v edge => edge.source == v || edge.target == v) types

/-- The vertex that an edge leads to. -/
def inV : Transform := emitOne fun w obj => do return .vertex (← w.graph.edge "inV" obj).target

/-- The vertex that an edge comes from. -/
def outV : Transform := emitOne fun w obj => do return .vertex (← w.graph.edge "outV" obj).source

/-- The end of an edge from which it was not reached. -/
def otherV : Transform := each fun t => observe fun w => do
  let edge ← w.graph.edge "otherV" t.obj
  match t.origin with
  | some v => return [t.carry (.vertex (if v = edge.source then edge.target else edge.source))]
  | none => .error (.unfit "otherV" t.obj)

/-! ## Changing the graph -/

/-- The result of adding an element, if there was an identity left. -/
def added : Option (Int64 × Graph) → Except Halt (Int64 × Graph)
  | some result => .ok result
  | none => .error .overflow

/-- Adds a vertex. -/
def addV (label : Option String) : Transform := emit fun _ => do
  return [.vertex (← update fun g => added (g.addVertex? (label.getD "vertex")))]

/-- Adds an edge between two named vertices. -/
def addE (type source target : String) : Transform := each fun t => do
  match ← resolve t source, ← resolve t target with
  | some (.vertex a), some (.vertex b) =>
    return [t.carry (.edge (← update fun g => added (g.addEdge? type a b)))]
  | _, _ => throw (.malformed "addE")

/-- Gives a property a value. -/
def property (key : String) (v : Traverser → Run Obj) : Transform := each fun t => do
  let v ← v t
  modifyElement t.obj (·.put key v)
  return [t]

/-- Removes what the object stands for.  The property of an element that is gone is gone. -/
def removed (obj : Obj) (g : Graph) : Except Halt (Unit × Graph) :=
  match obj with
  | .vertex id => .ok ((), g.removeVertex id)
  | .edge id => .ok ((), g.removeEdge id)
  | .property owner key _ => .ok ((), g.modify owner (·.erase key))
  | _ => .error (.unfit "drop" obj)

/-- Removes the elements and the properties at hand. -/
def drop : Transform := each fun t => do
  update (removed t.obj)
  return []

/-! ## Filters -/

/-- Keeps elements with a property that passes a test. -/
def has (key : String) (test : Obj → Except Halt Bool) : Transform := keep fun w obj =>
  match (w.graph.element? obj).bind fun element => Table.get? element.properties key with
  | some v => test v
  | none => .ok false

/-- Keeps elements with one of the labels. -/
def hasLabel (labels : List String) : Transform := keep fun w obj =>
  .ok ((w.graph.element? obj).any fun element => labels.contains element.label)

/-- Keeps elements without a property. -/
def hasNot (key : String) : Transform := keep fun w obj => do
  return !Table.has (← w.graph.element obj).properties key

/-- Keeps properties with a key. -/
def hasKey (key : String) : Transform := keep fun _ obj =>
  match obj with
  | .property _ k _ => .ok (k == key)
  | _ => .ok false

/-- Keeps objects that pass a test. -/
def is (test : Obj → Except Halt Bool) : Transform := keep fun _ obj => test obj

/-- Keeps traversers from which a child gives something. -/
def filter (child : Transform) : Transform := keepBy (produces child)

/-- Keeps traversers from which a child gives nothing. -/
def not (child : Transform) : Transform := keepBy fun t => do return !(← produces child t)

/-- Keeps traversers from which all children give something. -/
def and (children : List Transform) : Transform := keepBy (everyProduces children)

/-- Keeps traversers from which one of the children gives something. -/
def or (children : List Transform) : Transform := keepBy (someProduces children)

/-- Keeps objects that compare with what a name stands for. -/
def whereLabel (operator key : String) : Transform := keepBy fun t => do
  match ← resolve t key with
  | some other => result (comparesWith operator t.obj other)
  | none => return false

/-! ## Labels and maps -/

/-- Labels the object at hand. -/
def as (key : String) : Transform := fun ts => return ts.map (·.mark key)

/-- What a name stands for. -/
def selectOne (key : String) : Transform := each fun t => do
  return ((← resolve t key).map t.carry).toList

/-- A map of what each of some names stands for, if each stands for something. -/
def selectMany (keys : List String) : Transform := each fun t => do
  let entries? ← observe fun w => .ok (keys.mapM fun key =>
    (t.find? w.buckets key).map fun v => (Obj.string key, v))
  return (entries?.map fun entries => t.carry (.map entries)).toList

/-- What a name stands for, or a map if there is not exactly one name. -/
def select : List String → Transform
  | [key] => selectOne key
  | keys => selectMany keys

/-- The keys or the values of a map or an entry. -/
def selectColumn (column : String) : Transform :=
  let pick (entry : Obj × Obj) : Obj := if column = "keys" then entry.1 else entry.2
  emitOne fun _ obj =>
    match obj with
    | .entry k v => .ok (pick (k, v))
    | .map entries => .ok (.list (entries.map pick))
    | _ => .error (.unfit "select" obj)

/-- A map with an entry for each child. -/
def project (entries : List (String × Transform)) : Transform := each fun t => do
  let map ← entries.mapM fun entry => do return (Obj.string entry.1, ← value "project" entry.2 t)
  return [t.carry (.map map)]

/-! ## Branches -/

/-- One child or another. -/
def choose (condition : Traverser → Run Bool) (yes no : Transform) : Transform := each fun t => do
  if ← condition t then branch yes t else branch no t

/-- The first child that gives something. -/
def coalesce (children : List Transform) : Transform := each (firstBranch children)

def union (children : List Transform) : Transform := each fun t => do
  return (← children.mapM fun child => branch child t).flatten

/-- The first object that a child gives. -/
def map (child : Transform) : Transform := each fun t => do
  return ((← first child t).map t.carry).toList

/-- All objects that a child gives. -/
def flatMap (child : Transform) : Transform := each (branch child)

def sideEffect (child : Transform) : Transform := each fun t => do
  let _ ← child [t]
  return [t]

/-! ## Values -/

/-- A constant.  It is evaluated even if there is no traverser. -/
def constant (v : Except Halt Obj) : Transform := fun ts => do
  let v ← result v
  return ts.map (·.carry v)

/-- Adds new traversers with the given objects. -/
def inject (vs : Except Halt (List Obj)) : Transform := fun ts => do
  return ts ++ (← result vs).map .fresh

/-- The identity of an element. -/
def id : Transform := emitOne fun _ obj =>
  match obj with
  | .vertex id | .edge id => .ok (.int id)
  | _ => .error (.unfit "id" obj)

def label : Transform := emitOne fun w obj => do return .string (← w.graph.element obj).label

def values (keys : List String) : Transform := emit fun obj => observe fun w => do
  return ((← w.graph.element obj).select keys).map Prod.snd

def properties (keys : List String) : Transform := emit fun obj => observe fun w => do
  return ((← w.graph.element obj).select keys).map fun (k, v) => .property obj k v

def key : Transform := emitOne fun _ obj =>
  match obj with
  | .property _ k _ => .ok (.string k)
  | _ => .error (.unfit "key" obj)

def propertyValue : Transform := emitOne fun _ obj =>
  match obj with
  | .property _ _ v => .ok v
  | _ => .error (.unfit "value" obj)

def valueMap (tokens : Bool) : Transform := emitOne fun w obj => w.graph.valueMap tokens obj

/-- A custom function of the object. -/
def apply (env : Env) (symbol : String) : Transform :=
  emitOne fun w obj => env.apply w.graph symbol obj

/-- The number of members of a list or a map. -/
def countLocal : Transform := emitOne fun _ obj =>
  match obj with
  | .list items => .ok (.ofNat items.length)
  | .map entries => .ok (.ofNat entries.length)
  | _ => .ok (.ofNat 1)

/-- The members of a list, or the entries of a map. -/
def unfold : Transform := emit fun obj =>
  match obj with
  | .list items => return items
  | .map entries => return entries.map fun (k, v) => .entry k v
  | _ => return [obj]

/-! ## Whole streams -/

/-- The number of traversers. -/
def count : Transform := gather fun _ objs => .ok [.ofNat objs.length]

/-- All objects in a list. -/
def fold : Transform := gather fun _ objs => .ok [.list objs]

def reduce (r : Reduction) : Transform := gather fun _ objs => r.ofList objs

/-- The content of a bucket. -/
def cap (key : String) : Transform := gather fun w _ =>
  .ok [.list ((Table.get? w.buckets key).getD [])]

/-- Adds the objects to a bucket. -/
def aggregate (key : String) : Transform := fun ts => do
  fill key (ts.map Traverser.obj)
  return ts

/-- The traversers whose object is neither among the given ones nor that of an earlier traverser. -/
def distinct (seen : List Obj) : List Traverser → List Traverser
  | [] => []
  | t :: rest =>
    if seen.any (·.same t.obj) then distinct seen rest else t :: distinct (t.obj :: seen) rest

/-- Drops repetitions. -/
def dedup : Transform := fun ts => return distinct [] ts

/-- At most so many. -/
def limit (n : Nat) : Transform := fun ts => return ts.take n

/-- All but the first so many. -/
def skip (n : Nat) : Transform := fun ts => return ts.drop n

/-- From one position up to another. -/
def range (low high : Nat) : Transform := fun ts => return (ts.drop low).take (high - low)

/-- Everything as it is. -/
def identity : Transform := fun ts => return ts

/-- The order of two lists of sort keys, each with the direction in which it counts. -/
def keyOrder : List (Obj × Bool) → List (Obj × Bool) → Ordering
  | (x, descending) :: xs, (y, _) :: ys =>
    let order := if descending then (x.sortOrder y).swap else x.sortOrder y
    order.then (keyOrder xs ys)
  | _, _ => .eq

/-- Sorts by the values of children, each in a direction.  What is equal keeps its order. -/
def order (keys : List (Transform × Bool)) : Transform := fun ts => do
  let keyed ← ts.mapM fun t => do
    let values ← keys.mapM fun key => do return (← value "order" key.1 t, key.2)
    return (values, t)
  return (keyed.insertionSort fun a b => keyOrder a.1 b.1 ≠ .gt).map Prod.snd

/-- Puts a traverser into the group of its key. -/
def addMember (key : Obj) (t : Traverser) :
    List (Obj × List Traverser) → List (Obj × List Traverser)
  | [] => [(key, [t])]
  | (k, members) :: rest =>
    if k.same key then (k, members ++ [t]) :: rest else (k, members) :: addMember key t rest

/-- The groups of traversers with equal keys, in the order of their first members. -/
def groups (keyed : List (Obj × Traverser)) : List (Obj × List Traverser) :=
  keyed.foldl (fun found entry => addMember entry.1 entry.2 found) []

/-- Groups by the value of one child and gathers each group by another. -/
def group (key gathered : Transform) : Transform := fun ts => do
  let keyed ← ts.mapM fun t => do return ((← first key t).getD .null, t)
  let entries ← (groups keyed).mapM fun entry => do
    return (entry.1, ((← gathered entry.2).head?.map Traverser.obj).getD (.list []))
  return [.fresh (.map entries)]

end Machine

end CypherGremlin
