import CypherGremlin.Proofs.Statement.Adding.Matching
import CypherGremlin.Proofs.Statement.Adding.Projecting
import CypherGremlin.Proofs.Statement.Adding.Writing
import CypherGremlin.Proofs.Statement.Scoped.OfQuery

/-!
# What the clauses of a query add to the program

* `Clause.binds scope clause` is the labels that a clause can put on something, apart from numbers.
* `Clause.Effect` says what each clause does to the program and to the draft
  (`Clause.effect_of_lower`).
* `Drafted clauses root draft` says that the program and the draft come about by lowering the
  clauses one after another.  A query that succeeds has been drafted clause by clause
  (`Query.exists_drafted`), and so has what stands before any of its clauses (`Drafted.front`).
-/

namespace CypherGremlin

open List Traversal

/-! ## Clauses -/

/-- The labels that patterns put on what they write, apart from numbers: the variables of nodes that
are not in scope, and the variables of relationships. -/
def Writing.newLabels (scope : Scope) (ps : List Pattern) : Set Label :=
  {l | ∃ p ∈ ps, (∃ var ∈ p.nodeVars, l = .named var ∧ scope.binds var = false) ∨
    ∃ var ∈ p.relVars, l = .named var}

/-- The labels that a clause can put on something, apart from numbers. -/
def Clause.binds (scope : Scope) : Clause → Set Label
  | .match _ ps _ => Matching.newLabels scope ps
  | .unwind _ name => {.named name}
  | .with p =>
    {l | ∃ columns, Projecting.items scope p = .ok columns ∧
    ∃ column ∈ columns, l = .named column.name}
  | .create ps => Writing.newLabels scope ps
  | .merge p => Writing.newLabels scope [p]
  | .return _ | .set _ | .remove _ | .delete _ _ => ∅

/-- What a clause does: it adds steps and leaves paths as they are; or it is MATCH and introduces
paths; or it is a projection. -/
inductive Clause.Effect : Clause → Draft → Traversal → Draft → Prop
  | adds {clause : Clause} {draft draft' : Draft} {t : Traversal}
      (h : AddsOnly (clause.binds draft.scope) draft t draft') : Effect clause draft t draft'
  | introduces {ps : List Pattern} {condition : Option Expr} {draft draft' : Draft} {t : Traversal}
      (h : Adds (Matching.newLabels draft.scope ps) draft t draft')
      (hpaths : ∀ path shape, Table.get? draft'.scope.paths path = some shape →
        Table.get? draft.scope.paths path = some shape ∨
        Matching.Introduces ps draft t draft'.next shape) :
      Effect (.match false ps condition) draft t draft'
  | replaces {p : Projection} {draft draft' : Draft} {t : Traversal}
    (h : Projecting.Replaces p draft t draft') : Effect (.with p) draft t draft'
  | returns {p : Projection} {columns : List (Item Expr)} {draft draft' : Draft} {t : Traversal}
      (h : Projecting.MakesRows columns t) (hcounts : draft.Counts draft') : Effect
      (.return p) draft t draft'

variable {draft : Draft}

theorem Clause.effect_of_lower {clause : Clause} {columns : List Column} {t : Traversal}
    {draft' : Draft} (hrun : clause.lower draft = .ok ((columns, t), draft')) :
    clause.Effect draft t draft' := by
  cases (Clause.deliversFrom_lower clause).result _ hrun with
  | «match» =>
    obtain ⟨steps, draft₁, hsteps, hreturn⟩ := stateT_bind_eq_ok.1 hrun
    obtain ⟨⟨rfl, rfl⟩, rfl⟩ := by simpa using stateT_pure_eq_ok.1 hreturn
    obtain ⟨hadds, hpaths⟩ := Matching.adds_of_all hsteps
    exact .introduces hadds hpaths
  | optionalMatch h => exact .adds h.addsOnly
  | unwind h => exact .adds h.addsOnly
  | «with» h => exact .replaces h.replaces
  | «return» h =>
    obtain ⟨⟨columns, hrows⟩, hcounts⟩ := h.makesRows
    exact .returns hrows hcounts
  | @create ps _ _ h =>
    refine .adds (h.addsOnly ?_ ?_)
    · exact fun p hp var hvar hfree => ⟨p, hp, .inl ⟨var, hvar, rfl, hfree⟩⟩
    · exact fun p hp var hvar => ⟨p, hp, .inr ⟨var, hvar, rfl⟩⟩
  | @merge p _ _ h =>
    refine .adds (h.addsOnly ?_ ?_)
    · exact fun var hvar hfree => ⟨p, mem_cons_self, .inl ⟨var, hvar, rfl, hfree⟩⟩
    · exact fun var hvar => ⟨p, mem_cons_self, .inr ⟨var, hvar, rfl⟩⟩
  | set h => exact .adds (.of_quiet h.allQuiet h.counts)
  | remove h => exact .adds (.of_quiet h.allQuiet (.refl _))
  | delete =>
    exact .adds (.of_steady (fun s hs => (Deleting.allQuiet_marks _ s hs).steady)
      (puts_eq_empty fun s hs => (Deleting.allQuiet_marks _ s hs).put) le_rfl rfl)

namespace Clause.Effect

variable {clause : Clause} {draft' : Draft} {t : Traversal}

/-- Numbers are taken upwards. -/
lemma next (h : clause.Effect draft t draft') : draft.next ≤ draft'.next := by
  cases h with
  | adds h => exact h.next
  | introduces h _ => exact h.next
  | replaces h =>
    obtain ⟨_, _, hcounts, htests⟩ := h
    exact hcounts.next.trans ((Nat.le_succ _).trans htests.counts.next)
  | returns _ hcounts => exact hcounts.next

lemma puts (h : clause.Effect draft t draft') :
    ∀ l ∈ puts t, l ∈ clause.binds draft.scope ∨ l.IsNumberedIn draft.next draft'.next := by
  cases h with
  | adds h => exact h.puts
  | introduces h _ => exact h.puts
  | replaces h =>
    obtain ⟨hitems, hrows, hcounts, htests⟩ := h
    intro l hl
    rw [puts_append, puts_append, puts_eq_empty hrows.puts,
      puts_eq_empty fun s hs => (htests.allQuiet s hs).put, Set.empty_union, Set.union_empty] at hl
    rcases puts_rebinding.1 hl with rfl | ⟨var, hvar, rfl⟩
    · exact .inr ⟨_, hcounts.next, htests.counts.next, .inr rfl⟩
    · obtain ⟨column, hcol, rfl⟩ := mem_map.1 hvar
      exact .inl ⟨_, hitems, column, hcol, rfl⟩
  | returns h _ => simp [puts_eq_empty h.puts]

/-- A path in scope after a clause was in scope before, perhaps as another variable, or the clause
is MATCH and introduces it. -/
lemma path (h : clause.Effect draft t draft') {path : String} {shape : PathShape}
    (hget : Table.get? draft'.scope.paths path = some shape) :
    (∃ var, Table.get? draft.scope.paths var = some shape) ∨
      ∃ ps condition, clause = .match false ps condition ∧
      Matching.Introduces ps draft t draft'.next shape := by
  cases h with
  | adds h => exact .inl ⟨path, h.paths ▸ hget⟩
  | introduces _ hpaths =>
    exact (hpaths path shape hget).imp (fun hold => ⟨path, hold⟩) fun hnew => ⟨_, _, rfl, hnew⟩
  | replaces h =>
    obtain ⟨_, _, _, htests⟩ := h
    rw [htests.counts.scope] at hget
    exact .inl (Projecting.mem_paths_scopeAfter (Table.mem_of_get? hget)).2
  | returns _ hcounts => exact .inl ⟨path, hcounts.scope ▸ hget⟩

end Clause.Effect

/-! ## Queries -/

/-- The program and the draft after some clauses.  RETURN is the last clause. -/
inductive Drafted : List Clause → Traversal → Draft → Prop
  | nil : Drafted [] [] {}
  | clause {clauses : List Clause} {root steps : Traversal} {draft draft' : Draft} {clause : Clause}
      {columns : List Column} (before : Drafted clauses root draft)
      (open_ : ∀ earlier ∈ clauses, earlier.isReturn = false)
      (lowered : clause.lower draft = .ok ((columns, steps), draft')) :
      Drafted (clauses ++ [clause])
        ((if root.isEmpty && clause.needsRow then Traversal.oneRow else root) ++ steps) draft'

/-- The first row stands behind a program that is empty. -/
lemma exists_started (root : Traversal) (clause : Clause) : ∃ row,
    (if root.isEmpty && clause.needsRow then oneRow else root) = root ++ row ∧ AllQuiet row ∧
      isBland row = true := by
  split
  · rename_i hempty
    rw [Bool.and_eq_true, List.isEmpty_iff] at hempty
    exact ⟨oneRow, by rw [hempty.1, nil_append], forall_mem_singleton.2 (.bland rfl rfl), rfl⟩
  · exact ⟨[], by simp, .nil, rfl⟩

namespace Drafted

variable {clauses before after : List Clause} {root : Traversal}

/-- The clauses determine the program and the draft. -/
theorem unique (h : Drafted clauses root draft) :
    ∀ {root' : Traversal} {draft' : Draft}, Drafted clauses root' draft' →
    root = root' ∧ draft = draft' := by
  induction h with
  | nil =>
    intro root' draft' h'
    generalize hclauses : ([] : List Clause) = clauses at h'
    cases h' with
    | nil => exact ⟨rfl, rfl⟩
    | clause => simp at hclauses
  | @clause clauses root steps draft draft' clause columns hbefore hopen hlow ih =>
    intro root' draft'' h'
    generalize hclauses : clauses ++ [clause] = clauses' at h'
    cases h' with
    | nil => simp at hclauses
    | clause hbefore' _ hlow' =>
      obtain ⟨rfl, hlast⟩ := append_inj' hclauses rfl
      obtain rfl := head_eq_of_cons_eq hlast
      obtain ⟨rfl, rfl⟩ := ih hbefore'
      rw [hlow] at hlow'
      obtain ⟨⟨rfl, rfl⟩, rfl⟩ := by simpa using hlow'
      exact ⟨rfl, rfl⟩

/-- What stands before the later clauses. -/
theorem front (h : Drafted clauses root draft) :
    ∀ {before after : List Clause}, clauses = before ++ after →
    ∃ root' draft', Drafted before root' draft' ∧ root' <+: root := by
  induction h with
  | nil =>
    intro before after heq
    obtain ⟨rfl, rfl⟩ := append_eq_nil_iff.1 heq.symm
    exact ⟨[], {}, .nil, prefix_refl _⟩
  | @clause clauses root steps draft draft' clause columns hbefore hopen hlow ih =>
    intro before after heq
    rcases after.eq_nil_or_concat with rfl | ⟨after', last, rfl⟩
    · obtain rfl : clauses ++ [clause] = before := by rw [heq, append_nil]
      exact ⟨_, _, .clause hbefore hopen hlow, prefix_refl _⟩
    · rw [concat_eq_append, ← append_assoc] at heq
      obtain ⟨root', draft', hfront, hstart⟩ := ih (append_inj_left' heq rfl)
      obtain ⟨row, hstarted, -⟩ := exists_started root clause
      refine ⟨root', draft', hfront, hstart.trans ?_⟩
      rw [hstarted, append_assoc]
      exact prefix_append _ _

theorem last {clause : Clause} (h : Drafted (clauses ++ [clause]) root draft) :
    ∃ before row draft₀ columns steps,
    Drafted clauses before draft₀ ∧ clause.lower draft₀ = .ok ((columns, steps), draft) ∧
      root = before ++ row ++ steps := by
  generalize hclauses : clauses ++ [clause] = all at h
  cases h with
  | nil => simp at hclauses
  | @clause _ before steps draft₀ _ _ columns hbefore _ hlow =>
    obtain ⟨rfl, hlast⟩ := append_inj' hclauses rfl
    obtain rfl := head_eq_of_cons_eq hlast
    obtain ⟨row, hstarted, -⟩ := exists_started before clause
    exact ⟨before, row, draft₀, columns, steps, hbefore, hlow, by rw [hstarted]⟩

theorem deliversFrom_lowerClauses {rest : List Clause} (h : Drafted clauses root draft)
    (hopen : rest ≠ [] → ∀ earlier ∈ clauses, earlier.isReturn = false) :
    DeliversFrom draft (lowerClauses root rest) fun statement draft' =>
      Drafted (clauses ++ rest) statement.traversal draft' := by
  induction rest generalizing clauses root draft with
  | nil => exact .pure (by rwa [append_nil])
  | cons clause rest ih =>
    have hearlier := hopen (by simp)
    refine .ite (fun _ => .throw_bind rfl) fun hlast =>
      (Clause.deliversFrom_lower clause).eq.bind ?_
    rintro ⟨columns, steps⟩ draft₁ hlow
    have hopen' : rest ≠ [] → ∀ earlier ∈ clauses ++ [clause], earlier.isReturn = false := by
      intro hrest
      refine forall_mem_append.2 ⟨hearlier,
        forall_mem_singleton.2 (Bool.eq_false_iff.2 fun hreturn => ?_)⟩
      simp [hreturn, hrest] at hlast
    refine (ih (.clause h hearlier hlow) hopen').bind fun statement draft₂ hstmt => .pure ?_
    rwa [append_assoc] at hstmt

lemma of_run {statement : Statement} (h : lowerClauses [] clauses {} = .ok (statement, draft)) :
    Drafted clauses statement.traversal draft :=
  (nil.deliversFrom_lowerClauses (by simp)).result _ h

end Drafted

/-- A query that succeeds has been drafted clause by clause. -/
theorem Query.exists_drafted {q : Query} {s : Statement} (h : q.statement = .ok s) : ∃ root draft,
    Drafted q.clauses root draft ∧ s.traversal = root ++ closing draft.buckets q.returns := by
  obtain ⟨statement, draft, hrun, -, htrav⟩ := Query.exists_run h
  exact ⟨statement.traversal, draft, .of_run hrun, htrav⟩

end CypherGremlin
