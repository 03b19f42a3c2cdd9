import CypherGremlin.Proofs.Engine.Single

/-!
# What operations give in a world

Most operations of an engine look at the world and do not change it.  For these `Returns w x a` says
what the computation `x` gives in the world `w`, and that it gives it without stopping.  An
operation that treats its traversers one after another then is a function on streams: `each` is a
`flatMap`, a filter is a `filter`, and so on.
-/

namespace CypherGremlin

variable {key operator : String} {child : Transform} {a : Traversal} {env : Env}
  {mid ts : List Traverser} {obj : Obj} {t : Traverser} {w : World} {α ι : Type}

open List Machine Traversal

/-! ## Labels of a traverser -/

namespace Traverser

@[simp] lemma label?_carry (t : Traverser) (obj : Obj) (key : String) :
    (t.carry obj).label? key = t.label? key := rfl

@[simp] lemma label?_mark_self (t : Traverser) (key : String) :
    (t.mark key).label? key = some t.obj := by
  simp [mark, label?, Table.get?]

lemma label?_mark_of_ne {other : String} (h : key ≠ other) (t : Traverser) :
    (t.mark key).label? other = t.label? other := by
  simp [mark, label?, Table.get?, h]

end Traverser

/-- A predicate that compares gets the object of its value. -/
lemma Value.values_singleton {v : Value} (h : v.eval env = .ok obj) : env.values
    (Value.arguments .capped [v]) = .ok [obj] := by
  rw [Value.eval] at h
  simp only [Value.arguments, Env.values, h]
  rfl

lemma Predicate.holds_eq {v : Value} (h : v.eval env = .ok obj) (a : Obj) :
    (Predicate.eq v).holds env a = .ok (a.looselyEqual obj) := by
  simp only [Predicate.holds, Predicate.argument, Env.test, operands, Predicate.operator,
    Value.values_singleton h]
  rfl

lemma Predicate.holds_neq {v : Value} (h : v.eval env = .ok obj) (a : Obj) :
    (Predicate.neq v).holds env a = .ok (!a.looselyEqual obj) := by
  simp only [Predicate.holds, Predicate.argument, Env.test, operands, Predicate.operator,
    Value.values_singleton h]
  rfl

/-- The first object for which an operation stops ends the run. -/
lemma Machine.emitOne_error {m : World → Obj → Except Halt Obj} {halt : Halt}
    (h : m w t.obj = .error halt) (rest : List Traverser) :
    emitOne m (t :: rest) w = .error halt := by
  have hfirst : Run.observe (fun w => do return [← m w t.obj]) w = .error halt := by
    rw [Run.observe, h]
    rfl
  rw [emitOne, emit, each, mapM_cons]
  exact stateT_bind_error (stateT_bind_error (stateT_bind_error hfirst))

/-- In the world, which it leaves as it is, the computation gives the result. -/
def Returns (w : World) (x : Run α) (a : α) : Prop := x w = .ok (a, w)

namespace Returns

lemma pure (a : α) : Returns w (pure a) a := rfl

lemma bind {x : Run α} {β : Type} {f : α → Run β} {a : α} {b : β} (hx : Returns w x a)
    (hf : Returns w (f a) b) : Returns w (x >>= f) b :=
  (stateT_bind_eq hx).trans hf

/-- What is done with a result afterwards. -/
lemma map {x : Run α} {β : Type} {a : α} (hx : Returns w x a) (f : α → β) : Returns w
    (do return f (← x)) (f a) :=
  hx.bind (.pure _)

lemma observe {f : World → Except Halt α} {a : α} (h : f w = .ok a) :
    Returns w (Run.observe f) a := by
  rw [Returns, Run.observe, h]
  rfl

lemma result {x : Except Halt α} {a : α} (h : x = .ok a) : Returns w (Run.result x) a := observe h

lemma resolve (t : Traverser) (key : String) :
    Returns w (Run.resolve t key) (t.find? w.buckets key) :=
  observe rfl

lemma mapM {β : Type} {f : α → Run β} {g : α → β} {as : List α}
    (h : ∀ a ∈ as, Returns w (f a) (g a)) :
    Returns w (as.mapM f) (as.map g) := by
  induction as with
  | nil => exact pure _
  | cons a rest ih =>
    obtain ⟨ha, hrest⟩ := forall_mem_cons.1 h
    rw [mapM_cons]
    exact ha.bind ((ih hrest).bind (pure _))

/-! ## Forms of operations

The traversers of a stream are given by an index, so that it can be said of what they stand for what
an operation makes of them. -/

section

variable {l : List ι} {f : ι → Traverser}

lemma each {m : Traverser → Run (List Traverser)} {k : ι → List Traverser}
    (h : ∀ i ∈ l, Returns w (m (f i)) (k i)) : Returns w (each m (l.map f)) (l.flatMap k) := by
  have hall : Returns w ((l.map f).mapM m) (l.map k) := by
    rw [mapM_map]
    exact mapM h
  rw [flatMap_def]
  exact hall.map List.flatten

lemma emit {m : Obj → Run (List Obj)} {k : ι → List Obj}
    (h : ∀ i ∈ l, Returns w (m (f i).obj) (k i)) :
    Returns w (Machine.emit m (l.map f)) (l.flatMap fun i => (k i).map (f i).carry) :=
  each fun i hi => (h i hi).map fun objs => objs.map (f i).carry

lemma emitOne {m : World → Obj → Except Halt Obj} {k : ι → Obj}
    (h : ∀ i ∈ l, m w (f i).obj = .ok (k i)) :
    Returns w (Machine.emitOne m (l.map f)) (l.map fun i => (f i).carry (k i)) := by
  rw [map_eq_flatMap (f := fun i => (f i).carry (k i))]
  exact emit (k := fun i => [k i]) fun i hi => observe (by rw [h i hi]; rfl)

lemma keepBy {q : ι → Bool} {p : Traverser → Run Bool} (h : ∀ i ∈ l, Returns w (p (f i)) (q i)) :
    Returns w (keepBy p (l.map f)) ((l.filter q).map f) := by
  have hfilter : (l.filter q).map f = l.flatMap fun i => if q i then [f i] else [] := by
    induction l with
    | nil => rfl
    | cons i rest ih =>
      rw [flatMap_cons, filter_cons, ← ih fun j hj => h j (mem_cons_of_mem _ hj)]
      cases q i <;> rfl
  rw [hfilter]
  exact each fun i hi => (h i hi).map fun kept => if kept then [f i] else []

lemma keep {q : ι → Bool} {p : World → Obj → Except Halt Bool}
    (h : ∀ i ∈ l, p w (f i).obj = .ok (q i)) :
    Returns w (keep p (l.map f)) ((l.filter q).map f) :=
  keepBy fun i hi => observe (h i hi)

lemma filter {outs : ι → List Traverser} (h : ∀ i ∈ l, Returns w (child [f i]) (outs i)) :
    Returns w (filter child (l.map f)) ((l.filter fun i => !(outs i).isEmpty).map f) :=
  keepBy fun i hi => (h i hi).map fun out => !out.isEmpty

lemma whereLabel {q : ι → Bool} (other : ι → Obj)
    (hfind : ∀ i ∈ l, (f i).find? w.buckets key = some (other i))
    (htest : ∀ i ∈ l, comparesWith operator (f i).obj (other i) = .ok (q i)) :
    Returns w (whereLabel operator key (l.map f)) ((l.filter q).map f) := by
  refine keepBy fun i hi => (resolve (f i) key).bind ?_
  rw [hfind i hi]
  exact result (htest i hi)

lemma edges {incident : Int64 → Edge → Bool} {types : List String} {v : ι → Int64}
    (h : ∀ i ∈ l, (f i).obj = .vertex (v i)) :
    Returns w (edges operator incident types (l.map f)) (l.flatMap fun i =>
      (w.graph.edges.entries.filter fun entry =>
        incident (v i) entry.2 && (types.isEmpty || types.contains entry.2.label)).map fun entry =>
          { (f i).carry (.edge entry.1) with origin := some (v i) }) := by
  refine each fun i hi => observe ?_
  simp only [h i hi]

/-- What a name stands for, at each traverser. -/
lemma selectOnes {obj : ι → Obj} (h : ∀ i ∈ l, (f i).find? w.buckets key = some (obj i)) :
    Returns w (selectOne key (l.map f)) (l.map fun i => (f i).carry (obj i)) := by
  rw [map_eq_flatMap (f := fun i => (f i).carry (obj i))]
  refine each fun i hi => ?_
  have hresolve : Returns w (Run.resolve (f i) key) (some (obj i)) := h i hi ▸ resolve (f i) key
  exact hresolve.map fun found => (found.map (f i).carry).toList

/-- A map for each traverser, with what the children give first. -/
lemma project {as : List α} {name : α → String} {child : α → Transform} {v : ι → α → Obj}
    (h : ∀ i ∈ l, ∀ a ∈ as, Returns w (Machine.value "project" (child a) (f i)) (v i a)) :
    Returns w (Machine.project (as.map fun a => (name a, child a)) (l.map f))
      (l.map fun i => (f i).carry (.map (as.map fun a => (.string (name a), v i a)))) := by
  rw [map_eq_flatMap (f := fun i => (f i).carry _)]
  refine each fun i hi => ?_
  have hentries : Returns w ((as.map fun a => (name a, child a)).mapM fun entry => do
      return (Obj.string entry.1, ← Machine.value "project" entry.2 (f i)))
        (as.map fun a => (.string (name a), v i a)) := by
    rw [mapM_map]
    exact mapM fun a ha => (h i hi a ha).map fun o => (Obj.string (name a), o)
  exact hentries.map fun entries => [(f i).carry (.map entries)]

lemma otherV {id v : ι → Int64} {edge : ι → Edge} (hobj : ∀ i ∈ l, (f i).obj = .edge (id i))
    (hedge : ∀ i ∈ l, w.graph.edges.get? (id i) = some (edge i))
    (horigin : ∀ i ∈ l, (f i).origin = some (v i)) : Returns w (otherV (l.map f)) (l.map fun i =>
      (f i).carry (.vertex (if v i = (edge i).source then (edge i).target else (edge i).source))) :=
  by
  rw [map_eq_flatMap (f := fun i => (f i).carry _)]
  refine each fun i hi => observe ?_
  simp only [Graph.edge, hobj i hi, hedge i hi, horigin i hi]
  rfl

end

/-! ## Operations -/

variable {out : List Traverser}

lemma value {o : Traverser} {rest : List Traverser}
    (h : Returns w (child [t]) (o :: rest)) : Returns w (Machine.value operator child t) o.obj :=
  (h.map fun out => out.head?.map Traverser.obj).bind (pure o.obj)

lemma emitOne_single {m : World → Obj → Except Halt Obj} {o : Obj} (h : m w t.obj = .ok o) :
    Returns w (Machine.emitOne m [t]) [t.carry o] :=
  emitOne (l := [()]) (f := fun _ => t) fun _ _ => h

lemma gather {m : World → List Obj → Except Halt (List Obj)} (objs : List Obj)
    (h : m w (ts.map Traverser.obj) = .ok objs) : Returns w (gather m ts) (objs.map .fresh) :=
  (observe h).map _

lemma fold : Returns w (fold ts) [.fresh (.list (ts.map Traverser.obj))] :=
  gather [.list (ts.map Traverser.obj)] rfl

lemma cap {objs : List Obj} (h : Table.get? w.buckets key = some objs) :
    Returns w (cap key ts) [.fresh (.list objs)] :=
  gather [.list objs] (by rw [h]; rfl)

lemma unfold_list {items : List Obj} (h : t.obj = .list items) :
    Returns w (unfold [t]) (items.map t.carry) := by
  rw [unfold, Machine.emit, each_singleton, h]
  exact (pure items).map fun objs => objs.map t.carry

lemma unfold_map {entries : List (Obj × Obj)} (h : t.obj = .map entries) :
    Returns w (unfold [t]) (entries.map fun entry => t.carry (.entry entry.1 entry.2)) := by
  have hcarry : (entries.map fun entry => t.carry (.entry entry.1 entry.2)) =
      (entries.map fun entry => Obj.entry entry.1 entry.2).map t.carry := by
    rw [map_map]
    rfl
  rw [unfold, Machine.emit, each_singleton, h, hcarry]
  exact (pure (entries.map fun entry => Obj.entry entry.1 entry.2)).map fun objs => objs.map t.carry

lemma as {l : List ι} {f : ι → Traverser} (label : Label) : Returns w
    ((Step.as label).run env (l.map f)) (l.map fun i => (f i).mark label.encode) := by
  have hmap : l.map (fun i => (f i).mark label.encode) = (l.map f).map (·.mark label.encode) := by
    rw [map_map]
    rfl
  rw [hmap]
  exact pure _

/-- What a name stands for is selected, if it stands for anything. -/
lemma selectOne_toList (t : Traverser) (key : String) :
    Returns w (selectOne key [t]) ((t.find? w.buckets key).map t.carry).toList := by
  rw [selectOne, each_singleton]
  exact (resolve t key).map fun found => (found.map t.carry).toList

lemma selectOne (h : t.find? w.buckets key = some obj) :
    Returns w (selectOne key [t]) [t.carry obj] := by
  simpa [h] using selectOne_toList (w := w) t key

lemma constant {v : Except Halt Obj} (h : v = .ok obj) :
    Returns w (constant v ts) (ts.map (·.carry obj)) :=
  (result h).map fun obj => ts.map (·.carry obj)

lemma branch (h : Returns w (child [t]) out) :
    Returns w (branch child t) (out.map fun o => t.carry o.obj) :=
  h.map fun out => out.map fun (o : Traverser) => t.carry o.obj

lemma coalesce_first {others : List Transform} {first : Transform} (h : Returns w (first [t]) out)
    (hout : out ≠ []) :
    Returns w (coalesce (first :: others) [t]) (out.map fun o => t.carry o.obj) := by
  rw [coalesce, each_singleton, firstBranch]
  refine h.branch.bind ?_
  rw [if_neg (by simpa using hout)]
  exact pure _

lemma coalesce_second {others : List Transform} {first second : Transform}
    (h : Returns w (first [t]) [])
    (hsecond : Returns w (second [t]) out) (hout : out ≠ []) :
    Returns w (coalesce (first :: second :: others) [t]) (out.map fun o => t.carry o.obj) := by
  have hrest : Returns w (coalesce (second :: others) [t]) _ := coalesce_first hsecond hout
  rw [coalesce, each_singleton] at hrest ⊢
  exact h.branch.bind hrest

lemma choose_yes {yes no : Transform} {condition : Traverser → Run Bool}
    (hc : Returns w (condition t) true) (h : Returns w (yes [t]) out) :
    Returns w (Machine.choose condition yes no [t]) (out.map fun o => t.carry o.obj) := by
  rw [Machine.choose, each_singleton]
  exact hc.bind h.branch

lemma choose_no {yes no : Transform} {condition : Traverser → Run Bool}
    (hc : Returns w (condition t) false) (h : Returns w (no [t]) out) :
    Returns w (Machine.choose condition yes no [t]) (out.map fun o => t.carry o.obj) := by
  rw [Machine.choose, each_singleton]
  exact hc.bind h.branch

/-! ## Traversals -/

lemma nil : Returns w (run env [] ts) ts := pure ts

lemma cons {s : Step} (hs : Returns w (s.run env ts) mid) (hrest : Returns w (run env a mid) out) :
    Returns w (run env (s :: a) ts) out :=
  hs.bind hrest

lemma append {b : Traversal} (ha : Returns w (run env a ts) mid)
    (hb : Returns w (run env b mid) out) :
    Returns w (run env (a ++ b) ts) out := by
  rw [run_append]
  exact ha.bind hb

lemma projectStep {l : List ι} {f : ι → Traverser} {as : List α} {label : α → Label}
    {tr : α → Traversal}
    {v : ι → α → Obj}
    (h : ∀ i ∈ l, ∀ a ∈ as, Returns w (Machine.value "project" (run env (tr a)) (f i)) (v i a)) :
    Returns w ((Step.project (as.map fun a => (label a, tr a))).run env (l.map f))
      (l.map fun i => (f i).carry (.map (as.map fun a => (.string (label a).encode, v i a)))) := by
  rw [Step.run, runEntries_eq_map, map_map]
  exact project h

lemma tests {l : List ι} {f : ι → Traverser} {b : Traversal} {as : List α} {q : α → ι → Bool}
    {P : ι → Prop}
    (h : List.Forall₂ (fun a s => ∀ l : List ι, (∀ i ∈ l, P i) →
      Returns w (s.run env (l.map f)) ((l.filter (q a)).map f)) as b) (hl : ∀ i ∈ l, P i) :
    Returns w (run env b (l.map f)) ((l.filter fun i => as.all fun a => q a i).map f) := by
  induction h generalizing l with
  | nil =>
    simp only [all_nil, filter_true]
    exact nil
  | @cons a s _ _ hfirst _ ih =>
    have hkept := ih (l := l.filter (q a)) fun i hi => hl i (mem_filter.1 hi).1
    rw [filter_filter] at hkept
    simp only [all_cons, Bool.and_comm (q a _)]
    exact (hfirst l hl).cons hkept

end Returns

/-! ## First results -/

/-- The computation succeeds, leaves the world as it is and gives first a traverser with the object.
-/
def ReturnsFirst (w : World) (x : Run (List Traverser)) (obj : Obj) : Prop :=
  ∃ t rest, Returns w x (t :: rest) ∧ t.obj = obj

namespace ReturnsFirst

lemma first (h : ReturnsFirst w (child [t]) obj) : Returns w (first child t) (some obj) := by
  obtain ⟨o, rest, hchild, rfl⟩ := h
  exact hchild.map fun out => out.head?.map Traverser.obj

lemma value (h : ReturnsFirst w (child [t]) obj) :
    Returns w (Machine.value operator child t) obj := by
  obtain ⟨o, rest, hchild, rfl⟩ := h
  exact hchild.value

lemma cons {s : Step} (hs : Returns w (s.run env ts) mid)
    (ha : ReturnsFirst w (run env a mid) obj) : ReturnsFirst w (run env (s :: a) ts) obj := by
  obtain ⟨o, rest, hrest, rfl⟩ := ha
  exact ⟨o, rest, hs.cons hrest, rfl⟩

lemma append {b : Traversal} (ha : Returns w (run env a ts) mid)
    (hb : ReturnsFirst w (run env b mid) obj) : ReturnsFirst w (run env (a ++ b) ts) obj := by
  obtain ⟨o, rest, hrest, rfl⟩ := hb
  exact ⟨o, rest, ha.append hrest, rfl⟩

end ReturnsFirst

end CypherGremlin
