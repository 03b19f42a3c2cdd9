import CypherGremlin.Proofs.Statement.Convergence
import CypherGremlin.Proofs.Statement.Reading

/-!
# Queries that only read

A query without writing clauses becomes a program without a step that changes the graph or fills a
bucket, and no dialect puts such a step into it (`Query.inert_of_reads`).

None of the steps of the reading clauses has an effect.  The steps after the last clause need a
second look, since they could delete: they do so only where a bucket is in use, and a bucket in use
has been filled by some step.
-/

namespace CypherGremlin

open Traversal

namespace Traversal

variable {t : Traversal}

lemma Calm.fills_eq_empty (h : t.Calm) : fills t = ∅ :=
  Set.eq_empty_of_forall_notMem fun _ hl => Bool.false_ne_true (h _ hl)

/-- Without buckets nothing is deleted at the end. -/
lemma Calm.closing {buckets : Buckets} (hplain : buckets.plain = false)
    (hdetached : buckets.detached = false) (returns : Bool) :
    Calm (CypherGremlin.closing buckets returns) := by
  rw [CypherGremlin.closing, hplain, hdetached]
  cases returns with
  | true => exact allSteps_nil
  | false => exact allSteps_append.2 ⟨allSteps_leaf rfl rfl, allSteps_leaf rfl rfl⟩

end Traversal

/-- The clauses of a query that only reads continue a calm program with calm steps. -/
lemma LowersAll.calm {root : Traversal} {draft draft' : Draft} {clauses : List Clause}
    {statement : Statement} (h : LowersAll root draft clauses statement draft')
    (hreads : ∀ clause ∈ clauses, clause.writes = false) (hroot : root.Calm) :
    statement.traversal.Calm := by
  induction h with
  | nil => exact hroot
  | @cons root _ _ _ _ clause _ _ _ _ hclause _ ih =>
    obtain ⟨hfirst, hrest⟩ := List.forall_mem_cons.1 hreads
    have hstarted : (clause.started root).Calm := by
      rw [Clause.started]
      split
      · exact allSteps_leaf rfl rfl
      · exact hroot
    exact ih hrest (allSteps_append.2 ⟨hstarted, hclause.calm hfirst⟩)

namespace Query

variable {q : Query} {s : Statement}

lemma calm_of_reads (hreads : ∀ clause ∈ q.clauses, clause.writes = false)
    (h : q.statement = .ok s) : s.traversal.Calm := by
  obtain ⟨statement, draft, hrun, -, htrav⟩ := exists_run h
  have hcalm := ((deliversFrom_lowerClauses [] q.clauses).result _ hrun).calm hreads allSteps_nil
  -- A bucket in use would have been filled.
  have hholds := (q.deliversFrom_clauses.result _ hrun).holds
  rw [hcalm.fills_eq_empty, Set.union_empty] at hholds
  have hplain : draft.buckets.plain = false := Bool.eq_false_iff.2 fun hused => hholds.plain hused
  have hdetached : draft.buckets.detached = false := Bool.eq_false_iff.2 fun hused =>
    hholds.detached hused
  rw [htrav]
  exact allSteps_append.2 ⟨hcalm, Calm.closing hplain hdetached q.returns⟩

end Query

/-- Passes add nothing that has an effect. -/
lemma Step.lasting_inert : Step.Lasting fun s => s.changesGraph = false ∧ s.fills = [] where
  inside s f h := by cases s <;> exact h
  simple _ x _ hx _ := by
    cases x with
    | properties | hasKey | value | is | has => exact ⟨rfl, rfl⟩
    | _ => cases hx

/-- A query of MATCH, OPTIONAL MATCH, UNWIND, WITH and RETURN never writes: at no depth does its
program have a step that adds, sets or removes something, or one that gathers what is to be removed,
and the same is true of what any dialect makes of the program. -/
theorem Query.inert_of_reads {q : Query} {s : Statement}
    (hreads : ∀ clause ∈ q.clauses, clause.writes = false) (h : q.statement = .ok s) :
    s.traversal.Inert ∧
      ∀ name s', (Dialect.ofName name).apply s = .ok s' → s'.traversal.Inert := by
  have hinert := (calm_of_reads hreads h).inert
  refine ⟨hinert, fun name s' happly => ?_⟩
  obtain ⟨t, ht, hs'⟩ := bind_eq_ok.1 happly
  obtain rfl := pure_eq_ok.1 hs'
  have htrim : Trimmed s.traversal t := Dialect.applyTo_induction .refl .trans name
    (fun _ hf => .mapBottomUp hf.edits) .dropUnusedLabels _ _ ht
  exact htrim.lasting (anchored h) _ Step.lasting_inert hinert

/-- `MATCH (a:Person) OPTIONAL MATCH (a)-[r]->() UNWIND [1] AS x WITH a, x RETURN a, x`. -/
def Query.ofEveryReading : Query where
  clauses := [
    .match false [⟨none, ⟨some "a", ["Person"], []⟩, []⟩] none,
    .match true [⟨none, ⟨some "a", [], []⟩, [⟨⟨some "r", [], .out, [], none⟩, ⟨none, [], []⟩⟩]⟩]
    none, .unwind (.list [.literal (.int 1)]) "x",
    .with ⟨false, false, [⟨.var "a", none⟩, ⟨.var "x", none⟩], [], none, none, none⟩,
    .return ⟨false, false, [⟨.var "a", none⟩, ⟨.var "x", none⟩], [], none, none, none⟩]

theorem Query.inert_of_reads_ofEveryReading : ∃ s s', Query.ofEveryReading.statement = .ok s ∧
    (Dialect.ofName .cosmosdb).apply s = .ok s' ∧ s.traversal.Inert ∧ s'.traversal.Inert := by
  obtain ⟨s, hs, s', hs'⟩ : ∃ s, Query.ofEveryReading.statement = .ok s ∧
      ∃ s', (Dialect.ofName .cosmosdb).apply s = .ok s' := by decide +kernel
  obtain ⟨hinert, hdialects⟩ := Query.inert_of_reads (by decide) hs
  exact ⟨s, s', hs, hs', hinert, hdialects .cosmosdb s' hs'⟩

end CypherGremlin
