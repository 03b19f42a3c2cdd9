import CypherGremlin.Proofs.Dialect.Convergence
import CypherGremlin.Proofs.Statement.Emission
import CypherGremlin.Proofs.Statement.Scoped.OfQuery

/-!
# Dialects settle on queries

Dialects give up on a program that still changes after `Dialect.maxRounds` rounds.  The program of a
query never comes to that.  What `Dialect.isSome_of_rounds` asks for is there: lowering puts and
selects numbered labels where they have to be (`Query.anchored`), and it refuses floats that are not
finite (`Query.isFinite`).

`Query.dialects_settle` is the result.
-/

namespace CypherGremlin

open Traversal

/-! ## The program of a query -/

/-- What deletes at the end keeps its rows under a label without a number. -/
lemma isFree_closing (buckets : Buckets) (returns : Bool) :
    (walk (closing buckets returns)).all Step.isFree = true := by
  obtain ⟨plain, detached⟩ := buckets
  cases plain <;> cases detached <;> cases returns <;> rfl

namespace Query

variable {q : Query} {s : Statement}

/-- Labels keep to their places in the program of a query. -/
theorem anchored (h : q.statement = .ok s) : Anchored s.traversal := by
  obtain ⟨statement, draft, hrun, -, htrav⟩ := exists_run h
  have hclauses : Anchored statement.traversal :=
    (q.deliversFrom_clauses.result _ hrun).formed.visible.anchored
  rw [htrav]
  exact hclauses.append (isFree_closing draft.buckets q.returns)

/-- The floats in the program of a query are finite. -/
theorem isFinite (h : q.statement = .ok s) :
    ∀ x ∈ walk s.traversal, ∀ leaf ∈ x.leaves, leaf.IsFinite := by
  refine (q.yields_lowered s h).1.forall_mem_walk (fun x own leaf hleaf => ?_)
    (fun _ => List.forall_mem_nil _) fun _ _ => List.forall_mem_nil _
  have hadmissible := own.leaves leaf hleaf
  cases leaf with
  | float x => exact hadmissible
  | _ => trivial

/-- Three rounds are enough for the program of a query. -/
theorem isSome_of_rounds (h : q.statement = .ok s) (name : DialectName) (n : Nat) :
    Yields ((Dialect.ofName name).rounds (n + 3) s.traversal) fun settled =>
      settled.isSome = true :=
  Dialect.isSome_of_rounds name (anchored h) (isFinite h) n

/-- No dialect gives up on the program of a query: within the rounds that it tries, it comes to a
program that a further round leaves as it is, unless it has refused custom symbols before. -/
theorem dialects_settle (h : q.statement = .ok s) (name : DialectName) :
    (∀ dialect n, (Dialect.ofName name).apply s ≠ .error (.notConverged dialect n)) ∧
      ((∃ t, (Dialect.ofName name).rounds Dialect.maxRounds s.traversal = .ok (some t) ∧
          (Dialect.ofName name).round t = .ok t) ∨
        name = .neptune ∧
          ∃ names, (Dialect.ofName name).rounds Dialect.maxRounds s.traversal =
          .error (.customSymbols names)) := by
  have hsettles : (∃ t, (Dialect.ofName name).rounds Dialect.maxRounds s.traversal = .ok (some t)) ∨
      name = .neptune ∧
        ∃ names, (Dialect.ofName name).rounds Dialect.maxRounds s.traversal =
        .error (.customSymbols names) := by
    cases hrounds : (Dialect.ofName name).rounds Dialect.maxRounds s.traversal with
    | ok settled =>
      obtain ⟨t, rfl⟩ := Option.isSome_iff_exists.1 (isSome_of_rounds h name 5 settled hrounds)
      exact .inl ⟨t, rfl⟩
    | error e =>
      obtain ⟨hname, names, rfl⟩ := Dialect.error_of_rounds hrounds
      exact .inr ⟨hname, names, rfl⟩
  refine ⟨fun dialect n hgiven => ?_, ?_⟩
  · rcases bind_eq_error.1 hgiven with hgiven | ⟨_, -, hdone⟩
    · rcases Dialect.error_of_applyTo (isSome_of_rounds h name 5) hgiven with ⟨_, hfault⟩ | ⟨_,
        hfault⟩ <;> cases hfault
    · cases hdone
  · refine hsettles.imp_left ?_
    rintro ⟨t, hrounds⟩
    exact ⟨t, hrounds, (Dialect.fixed_of_rounds _ _ _ hrounds t rfl).1⟩

/-- `MATCH (a:Person) OPTIONAL MATCH () RETURN a`. -/
def withAnyNode : Query where
  clauses := [
    .match false [⟨none, ⟨some "a", ["Person"], []⟩, []⟩] none,
    .match true [⟨none, ⟨none, [], []⟩, []⟩] none,
    .return ⟨false, false, [⟨.var "a", none⟩], [], none, none, none⟩]

/-- The optional node has a number that is dropped in the first round.  Only then it is seen that
the name of the other node is selected again for nothing, so the program still changes in the
second. -/
theorem dialects_settle_withAnyNode : ∃ s, withAnyNode.statement = .ok s ∧
    (Dialect.ofName .cosmosdb).rounds 2 s.traversal = .ok none ∧
      (∀ dialect n, (Dialect.ofName .cosmosdb).apply s ≠ .error (.notConverged dialect n)) ∧
        ∃ t, (Dialect.ofName .cosmosdb).rounds Dialect.maxRounds s.traversal = .ok (some t) ∧
          (Dialect.ofName .cosmosdb).round t = .ok t := by
  obtain ⟨s, hs, settled, hrounds, hnone⟩ : ∃ s, withAnyNode.statement = .ok s ∧
      ∃ settled, (Dialect.ofName .cosmosdb).rounds 2 s.traversal = .ok settled ∧
      settled.isNone = true := by
    decide +kernel
  rw [Option.isNone_iff_eq_none.1 hnone] at hrounds
  obtain ⟨hnever, hsettles⟩ := dialects_settle hs .cosmosdb
  refine ⟨s, hs, hrounds, hnever, hsettles.resolve_right ?_⟩
  rintro ⟨hname, -⟩
  cases hname

end Query

end CypherGremlin
