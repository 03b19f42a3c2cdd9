import CypherGremlin.Proofs.Engine.Bridge
import CypherGremlin.Proofs.Statement.Projecting
import CypherGremlin.Proofs.Statement.Writing
import CypherGremlin.Proofs.Statement.Lowers.OfQuery

/-!
# Lowered queries

Every clause continues the program with formed steps, provided that the names of paths count as
visible.  The types of relationships in pattern predicates are the only texts that reach the
traversal unchecked; `Query.predicateTypes` lists them, as `Query.parameters` lists the parameters.

* `LowersAll.continues` is the invariant along the clauses of a query.
* `Query.yields_lowered` is the result from which all statements about the texts, labels and
  constants of a query's traversal follow.
-/

namespace CypherGremlin

open List

/-- The expressions of a clause that are lowered as values or conditions. -/
def Clause.exprs : Clause → List Expr
  | .match _ _ condition => condition.toList
  | .unwind e _ => [e]
  | .with p => p.items.map (·.expr) ++ p.orderBy.map (·.expr) ++ p.condition.toList
  | .return p => p.items.map (·.expr) ++ p.orderBy.map (·.expr)
  | .create ps => ps.flatMap Pattern.values
  | .set items => items.map (·.value)
  | .merge _ | .remove _ | .delete _ _ => []

/-- The other expressions of a clause: the values in patterns that are matched or merged, the bounds
of a page, and what is deleted.  They are constants, parameters or variables, or else refused,
except for the condition of RETURN, which is not looked at. -/
def Clause.otherExprs : Clause → List Expr
  | .match _ ps _ => ps.flatMap Pattern.values
  | .merge p => p.values
  | .with p => p.skip.toList ++ p.limit.toList
  | .return p => p.skip.toList ++ p.limit.toList ++ p.condition.toList
  | .delete _ targets => targets
  | .unwind _ _ | .create _ | .set _ | .remove _ => []

def Query.parameters (q : Query) : List String :=
  q.clauses.flatMap fun clause => (clause.exprs ++ clause.otherExprs).flatMap Expr.parameters

/-- The types of relationships in the pattern predicates of a query. -/
def Query.predicateTypes (q : Query) : List String :=
  q.clauses.flatMap fun clause => clause.exprs.flatMap Expr.predicateTypes

/-- The bounds of the page that the clause takes. -/
def Clause.bounds : Clause → List Nat
  | .with p | .return p => p.bounds
  | _ => []

/-- What the query brings into its traversal without a check. -/
def Query.sources (q : Query) : Sources :=
  ⟨(· ∈ q.predicateTypes), (· ∈ q.parameters), (· ∈ q.clauses.flatMap Clause.bounds)⟩

/-- The names that a clause gives to paths.  Only MATCH can do this. -/
def Clause.pathNames : Clause → List String
  | .match false ps _ => ps.filterMap (·.path)
  | _ => []

def Query.pathNames (q : Query) : List String := q.clauses.flatMap Clause.pathNames

def Query.pathLabels (q : Query) : Set Label := {l | l ∈ q.pathNames.map Label.named}

lemma Query.mem_pathLabels (q : Query) :
    ∀ clause ∈ q.clauses, ∀ path ∈ clause.pathNames, .named path ∈ q.pathLabels :=
  fun clause hclause _ hpath => mem_map_of_mem (mem_flatMap.2 ⟨clause, hclause, hpath⟩)

variable {T : Sources} {F V : Set Label} {draft draft' : Draft} {root t : Traversal}
  {clause : Clause}

/-- What the clause brings into a traversal without a check is among the given sources. -/
structure Clause.Within (T : Sources) (clause : Clause) : Prop where
  exprs : ∀ e ∈ clause.exprs, e.Within T
  others : ∀ e ∈ clause.otherExprs, e.Supplied T
  bounds : ∀ n ∈ clause.bounds, T.bounds n

lemma Clause.within_any (clause : Clause) : clause.Within .any :=
  ⟨fun e _ => e.within_any, fun e _ => e.within_any.supplied, fun _ _ => trivial⟩

lemma Query.within_sources (q : Query) : ∀ clause ∈ q.clauses, clause.Within q.sources := by
  intro clause hclause
  have hsupplied : ∀ e ∈ clause.exprs ++ clause.otherExprs, e.Supplied q.sources :=
    fun e he name hname => mem_flatMap.2 ⟨clause, hclause, mem_flatMap.2 ⟨e, he, hname⟩⟩
  obtain ⟨hexprs, hothers⟩ := forall_mem_append.1 hsupplied
  refine ⟨fun e he => ⟨fun type htype => ?_, hexprs e he⟩, hothers,
    fun n hn => mem_flatMap.2 ⟨clause, hclause, hn⟩⟩
  exact mem_flatMap.2 ⟨clause, hclause, mem_flatMap.2 ⟨e, he, htype⟩⟩

/-- A clause continues the program, and the names of its columns are plain. -/
theorem Clause.Lowers.continues {columns : List Column} (h : clause.Lowers draft columns t draft')
    (hdraft : draft.Holds V F) (hpaths : ∀ path ∈ clause.pathNames, .named path ∈ V)
    (hT : clause.Within T) : Continues T V F t draft' ∧ ∀ column ∈ columns, Plain column.name := by
  obtain ⟨hT, hothers, hbounds⟩ := hT
  have hnone : ∀ column ∈ ([] : List Column), Plain column.name := forall_mem_nil _
  cases h with
  | «match» hall =>
    exact ⟨hall.continues hdraft
      (fun _ p hp path hpath => hpaths path (mem_filterMap.2 ⟨p, hp, hpath⟩))
      (forall_mem_flatMap.1 hothers) fun e he => hT e (Option.mem_toList.2 he), hnone⟩
  | optionalMatch h =>
    exact ⟨h.continues hdraft (forall_mem_flatMap.1 hothers) fun e he => hT e
      (Option.mem_toList.2 he), hnone⟩
  | unwind h => exact ⟨h.continues hdraft (hT _ mem_cons_self), hnone⟩
  | «with» h =>
    simp only [Clause.exprs, forall_mem_append, forall_mem_map, Option.mem_toList] at hT
    exact ⟨h.continues hdraft hT.1.1 hT.1.2 hT.2 hbounds, hnone⟩
  | «return» h =>
    simp only [Clause.exprs, forall_mem_append, forall_mem_map] at hT
    exact (h.continues hdraft hT.1 hT.2 hbounds).symm
  | create h => exact ⟨h.continues hdraft (forall_mem_flatMap.1 hT), hnone⟩
  | merge h => exact ⟨h.continues hdraft hothers, hnone⟩
  | set h =>
    exact ⟨.of_holds (h.formed hdraft (forall_mem_map.1 hT)) (hdraft.renumber h.counts), hnone⟩
  | remove h => exact ⟨.of_holds (h.formed hdraft) hdraft, hnone⟩
  | delete h => exact ⟨h.continues hdraft, hnone⟩

/-- The first row. -/
lemma Continues.start (h : Continues T V F root draft) (clause : Clause) :
    Continues T V F (clause.started root) draft := by
  rw [Clause.started]
  split
  · rename_i hempty
    rw [Bool.and_eq_true, List.isEmpty_iff] at hempty
    obtain ⟨rfl, -⟩ := hempty
    exact h.andThen (.leaf rfl (forall_mem_singleton.2 (.token .start)) rfl) (.refl _)
  · exact h

/-- A program is continued clause by clause. -/
theorem LowersAll.continues {clauses : List Clause} {statement : Statement}
    (h : LowersAll root draft clauses statement draft') (hroot : Continues T V F root draft)
    (hpaths : ∀ clause ∈ clauses, ∀ path ∈ clause.pathNames, .named path ∈ V)
    (hT : ∀ clause ∈ clauses, clause.Within T) :
    Continues T V F statement.traversal draft' ∧
      ∀ column ∈ statement.columns, Plain column.name := by
  induction h with
  | nil => exact ⟨hroot, by simp⟩
  | cons _ hclause _ ih =>
    obtain ⟨hclausePaths, hrestPaths⟩ := forall_mem_cons.1 hpaths
    obtain ⟨hclauseT, hrestT⟩ := forall_mem_cons.1 hT
    have hstarted := hroot.start ‹Clause›
    obtain ⟨hsteps, hcols⟩ :=
      hclause.continues hstarted.holds (fun path hpath => .inl (hclausePaths path hpath)) hclauseT
    obtain ⟨hcont, hothers⟩ := ih (hsteps.append hstarted.formed) hrestPaths hrestT
    exact ⟨hcont, forall_mem_append.2 ⟨hcols, hothers⟩⟩

/-- Before the first clause nothing is in scope. -/
lemma Draft.holds_empty (V F : Set Label) : Holds V F {} :=
  ⟨⟨forall_mem_nil _, forall_mem_nil _⟩, ⟨forall_mem_nil _, forall_mem_nil _⟩, forall_mem_nil _,
    nofun, nofun⟩

lemma continues_empty (T : Sources) (V F : Set Label) : Continues T V F [] {} :=
  .of_holds .nil (Draft.holds_empty V F)

lemma lowered_closing (buckets : Buckets) (returns : Bool) : Lowered T (closing buckets returns) :=
  .ite (Deleting.lowered_phase buckets returns)
    (.ite .nil (.append (a := [_]) (.leaf trivial rfl) (.leaf (s := .limit 0) (.inl rfl) rfl)))

/-- The traversal of the statement is one that lowering produces, and the names of its columns are
plain. -/
def Statement.Lowered (T : Sources) (s : Statement) : Prop :=
  CypherGremlin.Lowered T s.traversal ∧ ∀ column ∈ s.columns, Plain column.name

theorem Query.yields_lowered (q : Query) : Yields q.statement (Statement.Lowered q.sources) := by
  intro s hs
  obtain ⟨statement, draft, hlowers, hcols, htrav⟩ := Query.lowersAll hs
  obtain ⟨hcont, hplain⟩ :=
    hlowers.continues (continues_empty _ q.pathLabels ∅) q.mem_pathLabels q.within_sources
  rw [Statement.Lowered, hcols, htrav]
  exact ⟨.append hcont.formed.lowered (lowered_closing _ _), hplain⟩

/-! ## Meaning -/

/-- A dialect keeps the meaning of a query: if the program of the query runs, what the dialect makes
of it runs too, returns the same rows in the same order and leaves the same graph. -/
theorem Dialect.execute_apply {q : Query} {s s' : Statement} (hs : q.statement = .ok s)
    (name : DialectName) (hs' : (Dialect.ofName name).apply s = .ok s') (parameters : Parameters)
    {graph graph' : Graph} {rows : List RawRow}
    (h : Bytecode.execute (Env.standard parameters) graph (Traversal.bytecode s.traversal) =
      .ok (rows, graph')) :
    Bytecode.execute (Env.standard parameters) graph
    (Traversal.bytecode s'.traversal) = .ok (rows, graph') := by
  have hdisciplined : Disciplined (Traversal.mentions s.traversal) :=
    (q.yields_lowered s hs).1.disciplined
  obtain ⟨t, ht, heq⟩ := bind_eq_ok.1 hs'
  obtain rfl := pure_eq_ok.1 heq
  rw [Bytecode.execute_bytecode] at h ⊢
  exact (Dialect.keeps_applyTo parameters name hdisciplined ht).execute h

/-- A query that writes and reads:

    CREATE (a {name: 'Ann'})-[:KNOWS]->(b {name: 'Bob'})
    WITH a MATCH (a)-[r]->(c) WHERE c.name STARTS WITH 'B' RETURN c.name AS name -/
def Query.acquaintance : Query := ⟨[
  .create [{
    start := { var := some "a", properties := [("name", .literal (.string "Ann"))] }
    hops := [⟨{ types := ["KNOWS"] },
      { var := some "b", properties := [("name", .literal (.string "Bob"))] }⟩] }],
  .with { items := [⟨.var "a", none⟩] },
  .match false
  [{ start := { var := some "a" }, hops := [⟨{ var := some "r" }, { var := some "c" }⟩] }]
    (some (.stringMatch .startsWith (.property (.var "c") "name") (.literal (.string "B")))),
  .return { items := [⟨.property (.var "c") "name", some "name"⟩] }]⟩

/-- The dialect of Cosmos DB shortens the program of the query, and the shorter program still finds
the acquaintance. -/
theorem Dialect.execute_apply_acquaintance : ∃ s s' rows graph',
    Query.acquaintance.statement = .ok s ∧ (Dialect.ofName .cosmosdb).apply s = .ok s' ∧
      s'.traversal.length < s.traversal.length ∧ rows.length = 1 ∧
      Bytecode.execute (Env.standard []) .empty (Traversal.bytecode s.traversal) =
      .ok (rows, graph') ∧
      Bytecode.execute (Env.standard []) .empty (Traversal.bytecode s'.traversal) =
      .ok (rows, graph') := by
  obtain ⟨s, hs, s', hs', hshorter, ⟨rows, graph'⟩, hr, hrows⟩ :
    ∃ s, Query.acquaintance.statement = .ok s ∧
      ∃ s', (Dialect.ofName .cosmosdb).apply s = .ok s' ∧ s'.traversal.length < s.traversal.length ∧
        ∃ r, Bytecode.execute (Env.standard []) .empty (Traversal.bytecode s.traversal) = .ok r ∧
        r.1.length = 1 := by
    decide +kernel
  exact ⟨s, s', rows, graph', hs, hs', hshorter, hrows, hr,
    Dialect.execute_apply hs .cosmosdb hs' [] hr⟩

end CypherGremlin
