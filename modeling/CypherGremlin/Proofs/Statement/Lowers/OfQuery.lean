import CypherGremlin.Proofs.Statement.Lowers.Projecting
import CypherGremlin.Proofs.Statement.Lowers.Writing
import CypherGremlin.Statement.OfQuery

/-!
# What queries are lowered to

`Clause.Lowers` has one rule for each clause.  `LowersAll` is for the clauses of a query, one after
another, and `Query.lowersAll` says that a query is lowered so, up to the steps at its end.
-/

namespace CypherGremlin

variable {s : Statement} {q : Query} {draft : Draft}

/-- The clause gives the columns and the steps. -/
inductive Clause.Lowers (draft : Draft) : Clause → List Column → Traversal → Draft → Prop
  | match {ps : List Pattern} {condition : Option Expr} {t : Traversal} {draft' : Draft}
    (all : Matching.All false draft ps condition t draft') : Lowers draft
    (.match false ps condition) [] t draft'
  | optionalMatch {ps : List Pattern} {condition : Option Expr} {t : Traversal} {draft' : Draft}
    (tries : Matching.Tries draft ps condition t draft') : Lowers draft (.match true ps condition)
    [] t draft'
  | unwind {e : Expr} {name : String} {t : Traversal} {draft' : Draft}
    (unwinds : Projecting.Unwinds draft e name t draft') : Lowers draft (.unwind e name) [] t draft'
  | with {p : Projection} {t : Traversal} {draft' : Draft}
    (carries : Projecting.Carries draft p t draft') : Lowers draft (.with p) [] t draft'
  | return {p : Projection} {columns : List Column} {t : Traversal} {draft' : Draft}
    (returns : Projecting.Returns draft p columns t draft') : Lowers draft (.return p) columns
    t draft'
  | create {ps : List Pattern} {t : Traversal} {draft' : Draft}
    (creates : Creating.CreatesAll draft ps t draft') : Lowers draft (.create ps) [] t draft'
  | merge {p : Pattern} {t : Traversal} {draft' : Draft}
    (merges : Merging.Merges draft p t draft') : Lowers draft (.merge p) [] t draft'
  | set {items : List Assignment} {t : Traversal} {draft' : Draft}
    (sets : Updating.Sets draft items t draft') : Lowers draft (.set items) [] t draft'
  | remove {items : List PropertyRef} {t : Traversal}
    (removes : Updating.Removes draft.scope items t) : Lowers draft (.remove items) [] t draft
  | delete {detach : Bool} {es : List Expr} {marks : List Deleting.Mark}
    (marked : Deleting.MarksAll draft.scope detach es marks) :
    Lowers draft (.delete detach es) [] (marks.map Deleting.Mark.step) (Deleting.mark draft marks)

lemma Clause.deliversFrom_lower (clause : Clause) :
    DeliversFrom draft clause.lower fun r draft' => clause.Lowers draft r.1 r.2 draft' := by
  cases clause with
  | «match» isOptional ps condition =>
    cases isOptional with
    | false =>
      exact (Matching.deliversFrom_all false ps condition).bind fun _ _ h => .pure (.match h)
    | true =>
      exact (Matching.deliversFrom_optionally ps condition).bind fun _ _ h =>
        .pure (.optionalMatch h)
  | unwind e name => exact (deliversFrom_unwindSteps e name).bind fun _ _ h => .pure (.unwind h)
  | «with» p => exact (deliversFrom_withSteps p).bind fun _ _ h => .pure (.with h)
  | «return» p => exact (deliversFrom_returnSteps p).mono fun _ _ h => .return h
  | create ps => exact (deliversFrom_createSteps ps).bind fun _ _ h => .pure (.create h)
  | merge p => exact (deliversFrom_mergeSteps p).bind fun _ _ h => .pure (.merge h)
  | set items => exact (deliversFrom_setSteps items).bind fun _ _ h => .pure (.set h)
  | remove items =>
    exact Drafting.scope_bind (.lift_bind (delivers_removeSteps draft.scope items)
      fun _ h => .pure (.remove h))
  | delete detach es =>
    refine (deliversFrom_deleteSteps detach es).bind ?_
    rintro _ _ ⟨marks, hmarks, rfl, rfl⟩
    exact .pure (.delete hmarks)

/-- The program before a clause: one row, if the clause needs it and there is none. -/
def Clause.started (root : Traversal) (clause : Clause) : Traversal :=
  if root.isEmpty && clause.needsRow then Traversal.oneRow else root

inductive LowersAll : Traversal → Draft → List Clause → Statement → Draft → Prop
  | nil (root : Traversal) (draft : Draft) : LowersAll root draft [] ⟨root, []⟩ draft
  | cons {root steps : Traversal} {draft draft₁ draft₂ : Draft} {clause : Clause}
    {rest : List Clause}
    {columns : List Column} {statement : Statement} (last : clause.isReturn = true → rest = [])
    (first : clause.Lowers draft columns steps draft₁)
    (others : LowersAll (clause.started root ++ steps) draft₁ rest statement draft₂) :
    LowersAll root draft (clause :: rest) { statement with columns := columns ++ statement.columns }
    draft₂

lemma deliversFrom_lowerClauses (root : Traversal) (clauses : List Clause) :
    DeliversFrom draft (lowerClauses root clauses) (LowersAll root draft clauses) := by
  induction clauses generalizing root draft with
  | nil => exact .pure (.nil root draft)
  | cons clause rest ih =>
    refine .ite (fun _ => .throw_bind rfl) fun hlast => (Clause.deliversFrom_lower clause).bind ?_
    rintro ⟨columns, steps⟩ draft₁ hclause
    refine (ih (clause.started root ++ steps)).bind fun _ _ hrest =>
      .pure (.cons (fun hreturn => ?_) hclause hrest)
    by_contra hsome
    exact hlast (by simp [hreturn, hsome])

lemma Query.exists_run (h : q.statement = .ok s) : ∃ statement draft,
    (lowerClauses [] q.clauses).run {} = .ok (statement, draft) ∧ s.columns = statement.columns ∧
      s.traversal = statement.traversal ++ closing draft.buckets q.returns := by
  rw [Query.statement] at h
  split at h
  · cases h
  · obtain ⟨⟨statement, draft⟩, hrun, h⟩ := bind_eq_ok.1 h
    obtain ⟨-, -, h⟩ := bind_eq_ok.1 h
    obtain rfl := pure_eq_ok.1 h
    exact ⟨statement, draft, hrun, rfl, rfl⟩

lemma Query.lowersAll (h : q.statement = .ok s) : ∃ statement draft,
    LowersAll [] {} q.clauses statement draft ∧ s.columns = statement.columns ∧
      s.traversal = statement.traversal ++ closing draft.buckets q.returns := by
  obtain ⟨statement, draft, hrun, hs⟩ := Query.exists_run h
  exact ⟨statement, draft, (deliversFrom_lowerClauses [] q.clauses).result _ hrun, hs⟩

end CypherGremlin
