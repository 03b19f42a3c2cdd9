import CypherGremlin.Proofs.Engine.Bridge
import CypherGremlin.Proofs.Engine.ReadOnly
import CypherGremlin.Proofs.Engine.Removal
import CypherGremlin.Proofs.Token
import CypherGremlin.Statement.Deleting
import Mathlib.Tactic.Choose

/-!
# What the steps after the last clause delete

The steps of `Deleting.phase` look at the two buckets, raise an error if a node would leave a
relationship behind, and only then remove what is staged.  The whole of it comes down to one
question about the graph, `Deleting.Connected`:

* if it holds, a beginning of the phase that only reads raises the error
  (`Deleting.exists_readOnly_error`);
* if not, the nodes that are deleted plainly have no edges left once the other bucket is empty, so
  that their removal takes none along (`Deleting.without_plain`).

`Deleting.run_phase` puts the two together.
-/

namespace CypherGremlin

variable {buckets : Buckets} {env : Env} {bucket : Label}

open Handle List Traversal

namespace Deleting

/-! ## What is staged -/

/-- The node has a relationship that stays: neither the relationship nor its other end is among the
elements. -/
def HasStaying (g : Graph) (xs : List Handle) (d : Int64) : Prop :=
  ∃ r edge, g.edges.get? r = some edge ∧ .edge r ∉ xs ∧
    (edge.source = d ∧ .vertex edge.target ∉ xs ∨ edge.target = d ∧ .vertex edge.source ∉ xs)

/-- A node that is deleted plainly, and in no other way, has a relationship that stays. -/
def Connected (g : Graph) (ds : List Int64) (xs : List Handle) : Prop :=
  ∃ d ∈ ds, .vertex d ∉ xs ∧ HasStaying g xs d

instance (g : Graph) (xs : List Handle) (d : Int64) : Decidable (HasStaying g xs d) :=
  decidable_of_iff (∃ entry ∈ g.edges.entries, .edge entry.1 ∉ xs ∧
    (entry.2.source = d ∧ .vertex entry.2.target ∉ xs ∨ entry.2.target = d ∧
    .vertex entry.2.source ∉ xs)) (by simp [HasStaying, Store.mem_iff_get?])

instance (g : Graph) (ds : List Int64) (xs : List Handle) : Decidable (Connected g ds xs) :=
  inferInstanceAs (Decidable (∃ d ∈ ds, .vertex d ∉ xs ∧ HasStaying g xs d))

/-- The buckets that are in use hold the given nodes and elements, and there are no others. -/
structure Staged (buckets : Buckets) (w : World) (ds : List Int64) (xs : List Handle) : Prop where
  plain : buckets.plain = true → Table.get? w.buckets plainBucket.encode = some (ds.map .vertex)
  noPlain : buckets.plain = false → ds = []
  detached : buckets.detached = true → Table.get? w.buckets detachedBucket.encode =
    some (xs.map obj)
  noDetached : buckets.detached = false → xs = []
  bucketed : w.Bucketed

variable {w : World} {ds : List Int64} {xs : List Handle} {t : Traverser} {parameters : Parameters}

/-! ## The check

It has two parts: the nodes that are deleted plainly and in no other way, and for each of them the
relationships that stay. -/

/-- Finds the nodes that are deleted plainly and in no other way. -/
def plainNodes (detached : Bool) : Traversal :=
  [.cap plainBucket, .unfold, .dedup] ++ if detached then [.whereLabel .without detachedBucket] else
    []

/-- Finds what is left beside a node. -/
def neighbours (detached : Bool) : Traversal :=
  .bothE [] :: if detached then
    [.whereLabel .without detachedBucket, .otherV, .whereLabel .without detachedBucket] else []

lemma check_eq (detached : Bool) : check detached = .sideEffect (plainNodes detached ++
    [.filter (neighbours detached), .constant (.string EngineFault.connectedNodeName),
      .apply .raise]) := rfl

/-- An element is compared with the whole content of a bucket. -/
lemma returns_without {ι : Type} {l : List ι} {f : ι → Traverser} {x : ι → Handle}
    (hbucket : Table.get? w.buckets bucket.encode = some (xs.map obj))
    (hf : ∀ i ∈ l, (f i).obj = (x i).obj) :
    Returns w ((Step.whereLabel .without bucket).run env (l.map f))
    ((l.filter fun i => x i ∉ xs).map f) := by
  refine .whereLabel (fun _ => .list (xs.map obj)) (fun i hi => ?_) fun i hi => ?_
  · rw [Traverser.find?, hf i hi, get?_obj, hbucket]
    rfl
  · rw [hf i hi]
    show Except.ok (!(xs.map obj).any (x i).obj.looselyEqual) = _
    rw [any_looselyEqual_obj, decide_not]

lemma exists_returns_content
    (hbucket : Table.get? w.buckets bucket.encode = some (xs.map obj)) (ts : List Traverser) :
    ∃ (ys : List Handle) (c : Traverser),
      Returns w (run env [.cap bucket, .unfold, .dedup] ts) (ys.map fun y => c.carry y.obj) ∧
      ∀ y, y ∈ ys ↔ y ∈ xs := by
  let c : Traverser := .fresh (.list (xs.map obj))
  have hcap : Returns w ((Step.cap bucket).run env ts) [c] := .cap hbucket
  have hunfold : Returns w (Step.unfold.run env [c]) (xs.map fun x => c.carry x.obj) := by
    have hlist : Returns w (Machine.unfold [c]) ((xs.map obj).map c.carry) := .unfold_list rfl
    rwa [map_map] at hlist
  obtain ⟨ys, hys, hmem⟩ := Machine.distinct_handles c [] xs
  have hdedup : Returns w (Step.dedup.run env (xs.map fun x => c.carry x.obj))
      (ys.map fun y => c.carry y.obj) :=
    hys ▸ Returns.pure _
  exact ⟨ys, c, hcap.cons (hunfold.cons (hdedup.cons .nil)), by simpa using hmem⟩

lemma exists_returns_plainNodes {detached : Bool}
    (hplain : Table.get? w.buckets plainBucket.encode = some (ds.map .vertex))
    (hbucket : detached = true → Table.get? w.buckets detachedBucket.encode = some (xs.map obj))
    (hnone : detached = false → xs = []) (ts : List Traverser) :
    ∃ (ys : List Handle) (c : Traverser),
      Returns w (run env (plainNodes detached) ts) (ys.map fun y => c.carry y.obj) ∧
      ∀ y, y ∈ ys ↔ ∃ d ∈ ds, .vertex d = y ∧ .vertex d ∉ xs := by
  have hhandles : ds.map Obj.vertex = (ds.map vertex).map obj := by
    rw [map_map]
    rfl
  obtain ⟨ys, c, hcontent, hmem⟩ :=
    exists_returns_content (hplain.trans (congrArg some hhandles)) ts
  cases detached with
  | false =>
    refine ⟨ys, c, hcontent.append .nil, fun y => ?_⟩
    simp [hmem, hnone rfl]
  | true =>
    have hleft :
      Returns w ((Step.whereLabel .without detachedBucket).run env (ys.map fun y => c.carry y.obj))
        _ :=
      returns_without (hbucket rfl) fun _ _ => rfl
    refine ⟨_, c, hcontent.append (hleft.cons .nil), fun y => ?_⟩
    simp only [mem_filter, hmem, mem_map, decide_eq_true_eq]
    constructor
    · rintro ⟨⟨d, hd, rfl⟩, hy⟩
      exact ⟨d, hd, rfl, hy⟩
    · rintro ⟨d, hd, rfl, hy⟩
      exact ⟨⟨d, hd, rfl⟩, hy⟩

/-- From a node, the check looks for relationships that stay. -/
lemma exists_returns_neighbours {d : Int64} {detached : Bool} (ht : t.obj = .vertex d)
    (hbucket : detached = true → Table.get? w.buckets detachedBucket.encode = some (xs.map obj))
    (hnone : detached = false → xs = []) :
    ∃ out, Returns w (run env (neighbours detached) [t]) out ∧
    (out.isEmpty = false ↔ HasStaying w.graph xs d) := by
  let found := w.graph.edges.entries.filter fun entry => entry.2.source == d || entry.2.target == d
  let reached (entry : Int64 × Edge) : Traverser :=
    { t.carry (.edge entry.1) with origin := some d }
  have hfound : Returns w ((Step.bothE []).run env [t]) (found.map reached) := by
    have hedges : Returns w (Machine.bothE [] ([t].map id)) _ :=
      .edges (v := fun _ => d) (by simpa using ht)
    simpa [found, reached, Step.run] using hedges
  have hmem (r : Int64) (edge : Edge) :
      (r, edge) ∈ found ↔ w.graph.edges.get? r = some edge ∧
      (edge.source = d ∨ edge.target = d) := by
    simp [found, Store.mem_iff_get?]
  cases detached with
  | false =>
    refine ⟨_, hfound.cons .nil, ?_⟩
    rw [hnone rfl, HasStaying]
    simp only [isEmpty_map, isEmpty_eq_false_iff_exists_mem, Prod.exists, hmem, not_mem_nil,
      not_false_eq_true, true_and, and_true]
  | true =>
    let other (entry : Int64 × Edge) : Int64 := if d = entry.2.source then entry.2.target else
      entry.2.source
    let left := found.filter fun entry => .edge entry.1 ∉ xs
    have hleft : ∀ entry ∈ left, w.graph.edges.get? entry.1 = some entry.2 := fun entry hentry =>
      ((hmem entry.1 entry.2).1 (mem_filter.1 hentry).1).1
    have hedges : Returns w ((Step.whereLabel .without detachedBucket).run env (found.map reached))
        (left.map reached) :=
      returns_without (hbucket rfl) fun _ _ => rfl
    have hother : Returns w (Step.otherV.run env (left.map reached)) (left.map fun entry =>
        (reached entry).carry (.vertex (other entry))) :=
      .otherV (fun _ _ => rfl) hleft fun _ _ => rfl
    have hends : Returns w ((Step.whereLabel .without detachedBucket).run env (left.map fun entry =>
        (reached entry).carry (.vertex (other entry)))) _ :=
      returns_without (x := fun entry => .vertex (other entry)) (hbucket rfl) fun _ _ => rfl
    refine ⟨_, hfound.cons (hedges.cons (hother.cons (hends.cons .nil))), ?_⟩
    simp only [isEmpty_map, isEmpty_eq_false_iff_exists_mem, Prod.exists, mem_filter, left, hmem,
      decide_eq_true_eq, HasStaying, other]
    refine exists_congr fun r => exists_congr fun edge => ?_
    -- A loop has the node at both ends, so it does not matter which of them is the other one.
    grind

lemma run_raise (message : String) (ts : List Traverser) :
    run (Env.standard parameters) [.constant (.string message), .apply .raise] ts w =
      if ts.isEmpty then .ok ([], w) else .error (.raised message) := by
  have hconst : Returns w ((Step.constant (.string message)).run (Env.standard parameters) ts)
      (ts.map (·.carry (.string message))) := .constant rfl
  rw [run_cons, stateT_bind_eq hconst, run_singleton]
  cases ts with
  | nil => rfl
  | cons t rest =>
    have hrequire : (Env.standard parameters).require CustomFunction.raise.symbol = .ok () := by
      simp only [Env.require, Env.standard]
      rfl
    have hraise : (Env.standard parameters).apply w.graph CustomFunction.raise.symbol
        (.string message) = .error (.raised message) := by
      rw [Env.apply, hrequire]
      rfl
    exact Machine.emitOne_error hraise _

/-- The check raises the error if a node would leave a relationship behind, and else does nothing.
-/
lemma run_check (h : Staged buckets w ds xs) (hplain : buckets.plain = true) (t : Traverser) :
    (Connected w.graph ds xs → (check buckets.detached).run (Env.standard parameters) [t] w =
      .error (.raised EngineFault.connectedNodeName)) ∧
    (¬ Connected w.graph ds xs →
      Returns w ((check buckets.detached).run (Env.standard parameters) [t]) [t]) := by
  obtain ⟨ys, c, hnodes, hys⟩ :=
    exists_returns_plainNodes (h.plain hplain) h.detached h.noDetached [t]
  have hneighbours : ∀ y ∈ ys, ∃ out,
      Returns w (run (Env.standard parameters) (neighbours buckets.detached) [c.carry y.obj]) out ∧
      (out.isEmpty = false ↔ ∃ d, y = .vertex d ∧ HasStaying w.graph xs d) := by
    intro y hy
    obtain ⟨d, -, rfl, -⟩ := (hys y).1 hy
    have hobj : (c.carry (vertex d).obj).obj = .vertex d := rfl
    obtain ⟨out, hout, hiff⟩ := exists_returns_neighbours hobj h.detached h.noDetached
    exact ⟨out, hout, by simpa using hiff⟩
  choose! outs houts hiff using hneighbours
  -- The filter keeps the nodes with neighbours left: none exactly if nothing is connected.
  have hstuck : (ys.filter fun y => !(outs y).isEmpty).isEmpty = false ↔
      Connected w.graph ds xs := by
    rw [isEmpty_eq_false_iff_exists_mem]
    simp only [mem_filter, Bool.not_eq_eq_eq_not, Bool.not_true]
    constructor
    · rintro ⟨y, hy, hout⟩
      obtain ⟨d, rfl, hd⟩ := (hiff y hy).1 hout
      obtain ⟨d', hmem, heq, hx⟩ := (hys _).1 hy
      obtain rfl : d' = d := by simpa using heq
      exact ⟨d', hmem, hx, hd⟩
    · rintro ⟨d, hmem, hx, hd⟩
      have hy := (hys (.vertex d)).2 ⟨d, hmem, rfl, hx⟩
      exact ⟨_, hy, (hiff _ hy).2 ⟨d, rfl, hd⟩⟩
  have hfilter :
    Returns w ((Step.filter (neighbours buckets.detached)).run (Env.standard parameters)
      (ys.map fun y => c.carry y.obj)) _ := .filter houts
  -- Raising an error does nothing to an empty input.
  rw [check_eq, Step.run, Machine.sideEffect, Machine.each_singleton, run_append, Returns,
    bind_assoc, stateT_bind_eq hnodes, run_cons, bind_assoc, stateT_bind_eq hfilter]
  constructor
  · intro hconn
    refine stateT_bind_error ?_
    rw [run_raise, isEmpty_map, hstuck.2 hconn, if_neg Bool.false_ne_true]
  · intro hconn
    have hempty := (not_congr hstuck).2 hconn
    rw [Bool.not_eq_false] at hempty
    refine stateT_bind_eq (a := []) ?_
    rw [run_raise, isEmpty_map, hempty, if_pos rfl]

lemma run_removal (h : Table.get? w.buckets bucket.encode = some (xs.map obj))
    (t : Traverser) :
    (removal bucket).run env [t] w = .ok ([t], { w with graph := w.graph.without [] xs }) := by
  obtain ⟨ys, c, hcontent, hmem⟩ := exists_returns_content h [t]
  have hgraph : ys.foldl Graph.remove w.graph = w.graph.without [] xs := by
    rw [Graph.foldl_remove, Graph.without_congr _ _ hmem]
  have hdrop : run env [.drop] (ys.map fun y => c.carry y.obj) w =
      .ok ([], { w with graph := w.graph.without [] xs }) := by
    rw [run_singleton, ← hgraph]
    exact Machine.drop_handles c ys w
  have hrun : run env ([.cap bucket, .unfold, .dedup] ++ [.drop]) [t] w =
      .ok ([], { w with graph := w.graph.without [] xs }) := by
    rw [run_append, stateT_bind_eq hcontent, hdrop]
  rw [removal, Step.run, Machine.sideEffect, Machine.each_singleton]
  exact stateT_bind_eq hrun

/-- An edge that does not go with the detached elements is at no node that is deleted. -/
lemma ends_of_not_connected {g : Graph} (h : ¬ Connected g ds xs) {r : Int64} {edge : Edge}
    (hedge : g.edges.get? r = some edge) (hstays : Graph.goesWith xs r edge = false) :
    ∀ id ∈ [edge.source, edge.target], id ∉ ds ∧ .vertex id ∉ xs := by
  simp only [Graph.goesWith, Bool.or_eq_false_iff, decide_eq_false_iff_not] at hstays
  obtain ⟨⟨hr, hsource⟩, htarget⟩ := hstays
  have hsource' : edge.source ∉ ds :=
    fun hmem => h ⟨_, hmem, hsource, r, edge, hedge, hr, .inl ⟨rfl, htarget⟩⟩
  have htarget' : edge.target ∉ ds :=
    fun hmem => h ⟨_, hmem, htarget, r, edge, hedge, hr, .inr ⟨rfl, hsource⟩⟩
  simp [hsource, htarget, hsource', htarget']

/-- Once the detached elements are gone, the removal of the other nodes takes no edge along. -/
lemma without_plain {g : Graph} (h : ¬ Connected g ds xs) :
    (g.without [] xs).without [] (ds.map .vertex) = g.without ds xs := by
  refine Graph.ext ?_ ?_ rfl
  · simp only [Graph.without, Store.filter_filter]
    congr 1
    funext id _
    simp
  · refine Store.ext (filter_eq_self.2 fun entry hentry => ?_)
    obtain ⟨hedge, hstays⟩ := Graph.get?_edges_without.1 (Store.get?_of_mem hentry)
    have hends := ends_of_not_connected h hedge hstays
    simp only [forall_mem_cons] at hends
    simp [Graph.goesWith, hends]

/-! ## The phase -/

/-- The label under which the rows are kept meanwhile. -/
def rowsLabel : Label := .token .deleteOnce

def keeper (ts : List Traverser) : Traverser :=
  Traverser.mark (.fresh (.list (ts.map Traverser.obj))) rowsLabel.encode

lemma returns_keeper (ts : List Traverser) :
    Returns w (run env [.fold, .as rowsLabel] ts) [keeper ts] :=
  Returns.cons .fold (.cons (.pure _) .nil)

lemma exists_returns_rows (hw : w.Bucketed) (returns : Bool) (ts : List Traverser) :
    ∃ out, Returns w
    (run env (if returns then [.select [rowsLabel], .unfold] else [.limit 0]) [keeper ts]) out ∧
      out.map Traverser.obj = if returns then ts.map Traverser.obj else [] := by
  cases returns with
  | false => exact ⟨[], Returns.cons (.pure _) .nil, rfl⟩
  | true =>
    have hbucket : Table.get? w.buckets rowsLabel.encode = none := by
      refine Table.get?_eq_none fun hmem => ?_
      rcases hw _ hmem with hname | hname <;> exact absurd (Token.encode_injective hname) (by simp)
    have hfind : (keeper ts).find? w.buckets rowsLabel.encode =
        some (.list (ts.map Traverser.obj)) := by
      simp [keeper, Traverser.find?, Traverser.mark, Traverser.fresh, Traverser.label?, Obj.get?,
        hbucket, Table.get?]
    refine ⟨_, Returns.cons (.selectOne hfind) (.cons (.unfold_list rfl) .nil), ?_⟩
    simp [Traverser.carry, Function.comp_def]

/-- The removals one after the other, if no node leaves a relationship behind. -/
lemma run_removals (h : Staged buckets w ds xs) (hfree : ¬ Connected w.graph ds xs)
    (t : Traverser) : run env ((if buckets.detached then [removal detachedBucket] else []) ++
      (if buckets.plain then [removal plainBucket] else [])) [t] w =
      .ok ([t], { w with graph := w.graph.without ds xs }) := by
  have hdetached : run env (if buckets.detached then [removal detachedBucket] else []) [t] w =
      .ok ([t], { w with graph := w.graph.without [] xs }) := by
    cases hflag : buckets.detached with
    | true =>
      rw [if_pos rfl, run_singleton]
      exact run_removal (h.detached hflag) t
    | false =>
      rw [h.noDetached hflag, Graph.without_nil]
      rfl
  have hplain : run env (if buckets.plain then [removal plainBucket] else []) [t]
      { w with graph := w.graph.without [] xs } =
      .ok ([t], { w with graph := w.graph.without ds xs }) := by
    rw [← without_plain hfree]
    cases hflag : buckets.plain with
    | true =>
      have hhandles : ds.map Obj.vertex = (ds.map vertex).map obj := by
        rw [map_map]
        rfl
      have hbucket : Table.get? (World.mk (w.graph.without [] xs) w.buckets).buckets
          plainBucket.encode = _ :=
        (h.plain hflag).trans (congrArg some hhandles)
      rw [if_pos rfl, run_singleton]
      exact run_removal hbucket t
    | false =>
      rw [h.noPlain hflag, map_nil, Graph.without_nil]
      rfl
  rw [run_append, stateT_bind_eq hdetached, hplain]

/-- The phase in its three parts, after the rows are stored away: check, removals, rows. -/
lemma phase_eq (buckets : Buckets) (returns : Bool) :
    phase buckets returns = [.fold, .as rowsLabel] ++
    ((if buckets.plain then [check buckets.detached] else []) ++
      (((if buckets.detached then [removal detachedBucket] else []) ++
        (if buckets.plain then [removal plainBucket] else [])) ++
      (if returns then [.select [rowsLabel], .unfold] else [.limit 0]))) := by
  simp only [phase, append_assoc]
  rfl

lemma readOnly_check (detached : Bool) :
    Traversal.ReadOnly ([.fold, .as rowsLabel] ++ [check detached]) := by
  rw [Traversal.ReadOnly]
  cases detached <;> decide

/-- The check ends the phase before any step that changes the graph. -/
lemma exists_readOnly_error (h : Staged buckets w ds xs) (hconn : Connected w.graph ds xs)
    (parameters : Parameters) (returns : Bool) (ts : List Traverser) :
    ∃ before after, phase buckets returns = before ++ after ∧ Traversal.ReadOnly before ∧
      run (Env.standard parameters) before ts w =
      .error (.raised EngineFault.connectedNodeName) := by
  have hplain : buckets.plain = true := by
    obtain ⟨d, hd, -⟩ := hconn
    cases hflag : buckets.plain with
    | true => rfl
    | false => simp [h.noPlain hflag] at hd
  have hphase := phase_eq buckets returns
  rw [if_pos hplain, ← append_assoc] at hphase
  refine ⟨_, _, hphase, readOnly_check _, ?_⟩
  rw [run_append, stateT_bind_eq (returns_keeper ts), run_singleton]
  exact (run_check h hplain _).1 hconn

/-- Without a relationship that would be left behind, everything staged is removed. -/
lemma exists_run_phase (h : Staged buckets w ds xs) (hfree : ¬ Connected w.graph ds xs)
    (parameters : Parameters) (returns : Bool) (ts : List Traverser) :
    ∃ out, run (Env.standard parameters) (phase buckets returns) ts w =
        .ok (out, { w with graph := w.graph.without ds xs }) ∧
      out.map Traverser.obj = if returns then ts.map Traverser.obj else [] := by
  have hcheck : Returns w (run (Env.standard parameters)
      (if buckets.plain then [check buckets.detached] else []) [keeper ts]) [keeper ts] := by
    cases hflag : buckets.plain with
    | true => exact Returns.cons ((run_check h hflag _).2 hfree) .nil
    | false => exact .nil
  obtain ⟨out, hrows, hout⟩ :=
    exists_returns_rows (w := { w with graph := w.graph.without ds xs }) h.bucketed returns ts
  refine ⟨out, ?_, hout⟩
  rw [phase_eq, run_append, stateT_bind_eq (returns_keeper ts), run_append, stateT_bind_eq hcheck,
    run_append, stateT_bind_eq (run_removals h hfree _)]
  exact hrows

/-- What a beginning of a traversal has done before a part that only reads stops it. -/
lemma graph_eq_of_readOnly_error {a : Traversal} {ts : List Traverser} {halt : Halt}
    (h : ∃ before after, a = before ++ after ∧ Traversal.ReadOnly before ∧
      run env before ts w = .error halt)
    {before after : Traversal} {out : List Traverser} {w' : World} (ha : a = before ++ after)
    (hrun : run env before ts w = .ok (out, w')) : w'.graph = w.graph := by
  obtain ⟨start, rest, hstart, hreads, herror⟩ := h
  rcases append_eq_append_iff.1 (hstart.symm.trans ha) with ⟨more, rfl, -⟩ | ⟨more, rfl, -⟩
  · -- The part that stops is in the beginning, which so cannot have ended.
    rw [run_append, stateT_bind_error herror] at hrun
    cases hrun
  · exact hreads.of_append.graph_eq hrun

/-- The phase raises the error, by a beginning of it that only reads, exactly if a node would leave
a relationship behind.  Otherwise it ends in the graph without the staged nodes and elements: an
edge is lost only if it is staged or at a node of the detached bucket, no edge is left at a removed
node, and the rows go through unchanged if the query returns them. -/
theorem run_phase {buckets : Buckets} {w : World} {ds : List Int64} {xs : List Handle}
    (h : Staged buckets w ds xs) (parameters : Parameters) (returns : Bool) (ts : List Traverser) :
    let run (t : Traversal) := Bytecode.run (Env.standard parameters) t.bytecode ts w
    let left := w.graph.without ds xs
    (run (phase buckets returns) = .error (.raised EngineFault.connectedNodeName) ↔
    Connected w.graph ds xs) ∧ (Connected w.graph ds xs →
      (∃ before after, phase buckets returns = before ++ after ∧ Traversal.ReadOnly before ∧
        run before = .error (.raised EngineFault.connectedNodeName)) ∧
      ∀ before after out w', phase buckets returns = before ++ after → run before = .ok (out, w') →
      w'.graph = w.graph) ∧
    (¬ Connected w.graph ds xs →
      (∃ out, run (phase buckets returns) = .ok (out, { w with graph := left }) ∧
        out.map Traverser.obj = if returns then ts.map Traverser.obj else []) ∧
      (∀ r edge, w.graph.edges.get? r = some edge → left.edges.get? r = none →
        .edge r ∈ xs ∨ .vertex edge.source ∈ xs ∨ .vertex edge.target ∈ xs) ∧
      ∀ r edge, left.edges.get? r = some edge → ∀ id ∈ [edge.source, edge.target], id ∉ ds ∧
      .vertex id ∉ xs) := by
  intro run left
  simp only [run, Bytecode.run_bytecode]
  -- The check only reads, so its error leaves the graph as it was; after it all is removed.
  by_cases hconn : Connected w.graph ds xs
  · have herror := exists_readOnly_error h hconn parameters returns ts
    refine ⟨iff_of_true ?_ hconn, fun _ => ⟨herror, fun _ _ _ _ ha hrun => ?_⟩, absurd hconn⟩
    · obtain ⟨before, after, hphase, -, hbefore⟩ := herror
      rw [hphase, Traversal.run_append]
      exact stateT_bind_error hbefore
    · exact graph_eq_of_readOnly_error herror ha hrun
  · obtain ⟨out, hout, hrows⟩ := exists_run_phase h hconn parameters returns ts
    refine ⟨iff_of_false ?_ hconn, fun h => absurd h hconn, fun _ => ⟨⟨out, hout, hrows⟩, ?_, ?_⟩⟩
    · simp [hout]
    · intro r edge hedge hlost
      by_contra hstays
      simp only [not_or] at hstays
      have hget : left.edges.get? r = some edge :=
        Graph.get?_edges_without.2 ⟨hedge, by simp [Graph.goesWith, hstays]⟩
      rw [hlost] at hget
      cases hget
    · intro r edge hedge
      obtain ⟨hedge, hstays⟩ := Graph.get?_edges_without.1 hedge
      exact ends_of_not_connected hconn hedge hstays

/-- Three people.  The first knows themself and the second, the third knows themself and the second
too. -/
def acquaintances : Graph where
  vertices := ⟨[(1, .bare "Person"), (2, .bare "Person"), (3, .bare "Person")], by decide⟩
  edges := ⟨[(4, ⟨.bare "KNOWS", 1, 1⟩), (5, ⟨.bare "KNOWS", 1, 2⟩), (6, ⟨.bare "KNOWS", 3, 3⟩),
    (7, ⟨.bare "KNOWS", 3, 2⟩)], by decide⟩
  lastId := 7
  vertices_le := by decide
  edges_le := by decide

/-- The world in which the first two people are deleted plainly, and some elements together with
what goes with them. -/
def departure (xs : List Handle) : World where
  graph := acquaintances
  buckets := [(plainBucket.encode, [.vertex 1, .vertex 2]), (detachedBucket.encode, xs.map obj)]

lemma staged_departure (xs : List Handle) : Staged ⟨true, true⟩ (departure xs) [1, 2] xs where
  plain := fun _ => rfl
  noPlain := by simp
  detached := fun _ => rfl
  noDetached := by simp
  bucketed := by
    intro key hkey
    simpa [departure, IsBucketName, plainBucket, detachedBucket, Label.encode] using hkey

/-- If the second person goes with all their relationships, the first is held by knowing themself.
If that relationship goes too, only the third person is left, and their relationship to themself. -/
theorem run_phase_departure :
    (Staged ⟨true, true⟩ (departure [.vertex 2]) [1, 2] [.vertex 2] ∧
      Bytecode.run (Env.standard []) (Traversal.bytecode (phase ⟨true, true⟩ true))
      [.fresh (.int 1), .fresh (.int 2)]
        (departure [.vertex 2]) = .error (.raised EngineFault.connectedNodeName)) ∧
    (Staged ⟨true, true⟩ (departure [.vertex 2, .edge 4]) [1, 2] [.vertex 2, .edge 4] ∧
      ∃ out w', Bytecode.run (Env.standard []) (Traversal.bytecode (phase ⟨true, true⟩ true))
          [.fresh (.int 1), .fresh (.int 2)] (departure [.vertex 2, .edge 4]) = .ok (out, w') ∧
        out.map Traverser.obj = [.int 1, .int 2] ∧
        w'.graph.vertices.entries.map Prod.fst = [3] ∧ w'.graph.edges.entries.map Prod.fst =
        [6]) := by
  refine ⟨⟨staged_departure _, ?_⟩, staged_departure _, ?_⟩
  · exact (run_phase (staged_departure [.vertex 2]) [] true _).1.2 (by decide)
  · obtain ⟨⟨out, hrun, hrows⟩, -⟩ := (run_phase (staged_departure [.vertex 2, .edge 4]) [] true
      [.fresh (.int 1), .fresh (.int 2)]).2.2 (by decide)
    exact ⟨out, _, hrun, hrows, by decide, by decide⟩

end Deleting

end CypherGremlin
