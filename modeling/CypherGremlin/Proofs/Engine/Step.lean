import CypherGremlin.Proofs.Engine.Bytecode
import CypherGremlin.Proofs.Traversal.Walk

/-!
# Running steps

A traversal means what its bytecode does.  `Traversal.run` says the same without the detour through
instructions: it follows the structure of the steps and names the operation of each, so that proofs
about traversals can follow the steps too.  `Engine.Bridge` proves the two equal.
-/

namespace CypherGremlin

open List Machine

/-! ## Data of steps -/

def Value.eval (env : Env) (v : Value) : Except Halt Obj := env.value (v.argument .capped)

/-- The values of some constants. -/
def Value.evalAll (env : Env) (vs : List Value) : Except Halt (List Obj) := vs.mapM (Value.eval env)

/-- Whether an object passes a predicate. -/
def Predicate.holds (env : Env) (p : Predicate) (obj : Obj) : Except Halt Bool :=
  env.test (p.argument .capped) obj

/-- The number of traversers that a bound lets through. -/
def boundOf (n : UInt64) : Nat := min n.toNat largestInt64

/-! ## Steps -/

mutual

def Step.run (env : Env) : Step → Transform
  | .V => V
  | .E => E
  | .addV label => addV label
  | .addE type source target => addE type source.encode target.encode
  | .property key v => property key fun _ => Run.result (v.eval env)
  | .propertyFrom key t => property key (value "property" (Traversal.run env t))
  | .drop => drop
  | .outE types => outE types
  | .inE types => inE types
  | .bothE types => bothE types
  | .inV => inV
  | .outV => outV
  | .otherV => otherV
  | .has key p => has key (p.holds env)
  | .hasLabel labels => hasLabel labels
  | .hasNot key => hasNot key
  | .hasKey key => hasKey key
  | .is p => is (p.holds env)
  | .filter t => filter (Traversal.run env t)
  | .whereLabel comparison l => whereLabel comparison.operator l.encode
  | .and ts => and (Traversal.runAll env ts)
  | .or ts => or (Traversal.runAll env ts)
  | .not t => not (Traversal.run env t)
  | .as l => as l.encode
  | .select labels => select (labels.map Label.encode)
  | .selectKey l => selectOne l.encode
  | .selectColumn .keys => selectColumn "keys"
  | .selectColumn .values => selectColumn "values"
  | .choose c yes no => choose (c.run env) (Traversal.run env yes) (Traversal.run env no)
  | .coalesce ts => coalesce (Traversal.runAll env ts)
  | .union ts => union (Traversal.runAll env ts)
  | .constant v => constant (v.eval env)
  | .inject vs => inject (Value.evalAll env vs)
  | .id => id
  | .label => label
  | .values keys => values keys
  | .valueMap tokens => valueMap tokens
  | .properties keys => properties keys
  | .key => key
  | .value => propertyValue
  | .project entries => project (Traversal.runEntries env entries)
  | .order keys => order (Traversal.runKeys env keys)
  | .group k v => group (Traversal.run env k) (Traversal.run env v)
  | .dedup => dedup
  | .count .global => count
  | .count .local => countLocal
  | .fold => fold
  | .unfold => unfold
  | .sum => reduce .sum
  | .mean => reduce .mean
  | .min => reduce .min
  | .max => reduce .max
  | .aggregate l => aggregate l.encode
  | .cap l => cap l.encode
  | .limit n => limit (boundOf n)
  | .skip n => skip (boundOf n)
  | .range low high => range (boundOf low) (boundOf high)
  | .barrier => identity
  | .sideEffect t => sideEffect (Traversal.run env t)
  | .map t => map (Traversal.run env t)
  | .flatMap t => flatMap (Traversal.run env t)
  | .apply f => apply env f.symbol
  | .identity => identity

/-- Whether a traverser meets a condition. -/
def Condition.run (env : Env) : Condition → Traverser → Run Bool
  | .predicate p => fun t => Run.result (p.holds env t.obj)
  | .traversal t => produces (Traversal.run env t)

/-- What a traversal does: its steps one after another. -/
def Traversal.run (env : Env) : List Step → Transform
  | [] => fun ts => return ts
  | s :: rest => fun ts => do
    let out ← s.run env ts
    Traversal.run env rest out

def Traversal.runAll (env : Env) : List (List Step) → List Transform
  | [] => []
  | t :: rest => Traversal.run env t :: Traversal.runAll env rest

def Traversal.runEntries (env : Env) : List (Label × List Step) → List (String × Transform)
  | [] => []
  | (l, t) :: rest => (l.encode, Traversal.run env t) :: Traversal.runEntries env rest

/-- What some sort keys do, with the direction in which each counts. -/
def Traversal.runKeys (env : Env) : List (List Step × SortOrder) → List (Transform × Bool)
  | [] => []
  | (t, o) :: rest => (Traversal.run env t, o == .desc) :: Traversal.runKeys env rest

end

@[simp] lemma Traversal.run_nil (env : Env) (ts : List Traverser) : run env [] ts = pure ts := rfl

@[simp] lemma Traversal.run_cons (env : Env) (s : Step) (rest : Traversal) (ts : List Traverser) :
    run env (s :: rest) ts = s.run env ts >>= run env rest := rfl

lemma Traversal.run_singleton (env : Env) (s : Step) : run env [s] = s.run env :=
  funext fun ts => bind_pure (s.run env ts)

lemma Traversal.run_append (env : Env) (a b : Traversal) (ts : List Traverser) :
    run env (a ++ b) ts = run env a ts >>= run env b := by
  induction a generalizing ts with
  | nil => simp
  | cons s rest ih =>
    rw [cons_append, run_cons, run_cons, bind_assoc]
    exact bind_congr ih

lemma Traversal.runAll_eq_map (env : Env) (ts : List Traversal) :
    runAll env ts = ts.map (run env) :=
  eq_map_of_cons rfl (fun _ _ => rfl) ts

lemma Traversal.runEntries_eq_map (env : Env) (entries : List (Label × Traversal)) :
    runEntries env entries = entries.map fun entry => (entry.1.encode, run env entry.2) :=
  eq_map_of_cons rfl (fun _ _ => rfl) entries

lemma Traversal.runKeys_eq_map (env : Env) (keys : List (Traversal × SortOrder)) :
    runKeys env keys = keys.map fun key => (run env key.1, key.2 == .desc) :=
  eq_map_of_cons rfl (fun _ _ => rfl) keys

/-! ## Programs -/

/-- The stream that the first step of a program starts from. -/
def Step.seed : Step → Except Halt (List Traverser)
  | .V | .E | .addV _ => .ok [.fresh .null]
  | .inject _ => .ok []
  | s => .error (.malformed s.name)

/-- Runs a whole program. -/
def Traversal.runProgram (env : Env) : Traversal → Run (List Traverser)
  | [] => throw (.malformed "program")
  | s :: rest => do
    let seed ← Run.result s.seed
    Traversal.run env (s :: rest) seed

/-- The buckets that a step fills itself. -/
def Step.fills : Step → List Label
  | .aggregate l => [l]
  | _ => []

/-- The buckets that a program fills at any depth. -/
def Traversal.buckets (t : Traversal) : List String := (collect Step.fills t).map Label.encode

/-- Runs a program on a graph.  The result is the rows and the graph afterwards. -/
def Traversal.execute (env : Env) (graph : Graph) (t : Traversal) :
    Except Halt (List RawRow × Graph) := do
  let (ts, world) ← (runProgram env t).run (World.start graph (buckets t))
  let rows ← ts.mapM fun t => world.graph.rawRow t.obj
  return (rows, world.graph)

end CypherGremlin
