import CypherGremlin.Proofs.Statement.Adding.OfQuery

/-!
# Where the elements of a path come from

A path is known by the labels of its elements.  Some of them are markers, which belong to the path
alone; the others are the labels of its nodes, and a node that the query names has a variable for a
label.  The path outlives such a variable: WITH can carry the path and drop the variable, and then a
later clause may bind it again.

* `Draft.Expands draft var t` says that the steps read a path variable: as a value, by a function of
  paths, or in order to delete what is on it.
* `PathOrigin clauses root shape` says that a pattern of a MATCH among the clauses has introduced
  the path, that every label of the path was put by the steps of the pattern or was in scope before
  it, and that whenever a later step of the program puts such a label again, one of the clauses
  after the MATCH binds it.
* `Drafted.origin_of_path` is the invariant along the clauses, and `Query.pathOrigin` the result for
  what a query expands.
* `Query.pathOrigin_reused` shows a path that is taken for another after a later clause has bound a
  variable again.
-/

namespace CypherGremlin

variable {draft : Draft} {t : Traversal}

open List Traversal

/-! ## Expanding a path -/

/-- The steps read a path variable: as a value, by `nodes` or `relationships`, or to delete what is
on the path. -/
inductive Draft.Expands (draft : Draft) (var : String) : Traversal → Prop
  | value {binding : Binding} {goal : Goal} {n n' : Nat} {t : Traversal}
      (hbind : draft.scope.binding? var = some binding) (hkind : binding.kind = .path)
      (h : (Expr.var var).lower draft.scope goal n = .ok (t, n')) : Expands draft var t
  | function {name : String} {distinct : Bool} {goal : Goal} {n n' : Nat} {t : Traversal}
      (hname : Function.ofName name = .nodes ∨ Function.ofName name = .relationships)
      (h : (Expr.call name distinct [.var var]).lower draft.scope goal n = .ok (t, n')) : Expands
      draft var t
  | delete {binding : Binding} {detach : Bool} {draft' : Draft} {t : Traversal}
      (hbind : draft.scope.binding? var = some binding) (hkind : binding.kind = .path)
      (h : Deleting.target detach (.var var) draft = .ok (t, draft')) : Expands draft var t

def PathShape.labels (shape : PathShape) : Set Label :=
  {l | ∃ element ∈ shape.elements, element.label = l}

lemma PathShape.visibleIn_labels (shape : PathShape) : shape.VisibleIn shape.labels :=
  fun element helem => ⟨element, helem, rfl⟩

section

variable {scope : Scope} {var : String} {binding : Binding}

/-- A traversal that reads a path known by the variable. -/
def Scope.ReadsPath (scope : Scope) (var : String) (t : Traversal) : Prop :=
  ∃ shape, Table.get? scope.paths var = some shape ∧ Scoped false shape.labels t

variable {goal : Goal}

/-- What is put together where nothing but the path is known refers to the labels of its elements
only. -/
lemma Composed.scoped_labels {T : Sources} {shape : PathShape} {loose : Bool}
    (h : Composed T { paths := [(var, shape)] } loose t) : Scoped false shape.labels t :=
  h.scoped ⟨by simp [Table.keys], forall_mem_singleton.2 shape.visibleIn_labels⟩

lemma Expr.Lowers.readsPath_var (h : (Expr.var var).Lowers scope goal t)
    (hbind : scope.binding? var = some binding) (hkind : binding.kind = .path) :
    scope.ReadsPath var t := by
  cases h with
  | var _ hread =>
    obtain ⟨shape, hpath, rfl⟩ := hread.eq_read hbind hkind
    have hread : Composed .any { paths := [(var, shape)] } false (shape.read goal.mode) :=
      .pathRead (v := var) (by simp [Table.get?]) _
    exact ⟨shape, hpath.known, (hread.ofValue goal).scoped_labels⟩

lemma Expr.Lowers.readsPath_call {name : String} {distinct : Bool}
    (h : (Expr.call name distinct [.var var]).Lowers scope goal t)
    (hname : Function.ofName name = .nodes ∨ Function.ofName name = .relationships) :
    scope.ReadsPath var t := by
  cases h with
  | @pathPart _ _ _ _ shape kind _ hpath =>
    have hread : Composed .any { paths := [(var, shape)] } false (shape.readKind goal.mode kind) :=
      .pathReadKind (v := var) (by simp [Table.get?]) _ _
    exact ⟨shape, hpath.known, (hread.ofValue goal).scoped_labels⟩
  | coalesce _ hother | range _ hother | pathLength _ hother | function _ hother => simp_all

lemma Deleting.scoped_marks {V : Set Label} {marks : List Mark}
    (h : ∀ mark ∈ marks, mark.label ∈ V) : Scoped false V (marks.map Mark.step) := by
  refine .of_forall (forall_mem_map.2 fun mark hmark => .inside trivial rfl
    (forall_mem_singleton.2 ?_))
  exact (Scoped.select (h mark hmark)).andThen (.bland rfl)

lemma Deleting.readsPath_of_target (h : draft.scope.binding? var = some binding)
    (hkind : binding.kind = .path) {detach : Bool} {draft' : Draft}
    (hrun : target detach (.var var) draft = .ok (t, draft')) : draft.scope.ReadsPath var t := by
  obtain ⟨marks, hmarks, rfl, -⟩ := (deliversFrom_target detach (.var var)).result _ hrun
  cases hmarks with
  | path _ _ hpath =>
    exact ⟨_, hpath, scoped_marks (forall_mem_map.2 (PathShape.visibleIn_labels _))⟩
  | element hbound hother | dynamic hbound hother =>
    obtain rfl := Option.some.inj (hbound.symm.trans h)
    simp [hkind] at hother

end

/-- The steps that expand a path read the labels of its elements only. -/
theorem Draft.Expands.reads {var : String} (h : draft.Expands var t) :
    ∃ shape, Table.get? draft.scope.paths var = some shape ∧ ∀ l, ReadsLabel l t →
      l ∈ shape.labels := by
  obtain ⟨shape, hshape, hscoped⟩ : draft.scope.ReadsPath var t := by
    cases h with
    | value hbind hkind h =>
      exact (Expr.ensures_lowers _ _ _ _ trivial _ _ h).2.readsPath_var hbind hkind
    | function hname h => exact (Expr.ensures_lowers _ _ _ _ trivial _ _ h).2.readsPath_call hname
    | delete hbind hkind h => exact Deleting.readsPath_of_target hbind hkind h
  exact ⟨shape, hshape, fun l hl => hscoped.mem_of_reads hl⟩

/-! ## Clauses -/

/-- One of the later clauses binds the label, in the scope that it meets. -/
def Rebound (before after : List Clause) (l : Label) : Prop :=
  ∃ between clause rest root draft, after = between ++ clause :: rest ∧
    Drafted (before ++ between) root draft ∧ l ∈ clause.binds draft.scope

/-- Where a path comes from.  A pattern of MATCH has introduced it: the clauses before MATCH and the
patterns before this one lead to the steps of the pattern, which put every label of the path unless
it is a variable that was in scope already.  If a later step of the program puts the label again,
then one of the later clauses binds it. -/
inductive PathOrigin (clauses : List Clause) (root : Traversal) (shape : PathShape) : Prop
  | intro {earlier later : List Clause} {front back : List Pattern} {p : Pattern}
    {condition : Option Expr}
    {path : String} {root₀ after : Traversal} {draft₀ draft draft' : Draft} {m₀ m : Matched}
    (split : clauses = earlier ++ .match false (front ++ p :: back) condition :: later)
    (drafted : Drafted earlier root₀ draft₀)
    (reached : Matching.patterns false front draft₀ = .ok (m₀, draft))
    (lowered : Matching.pattern false p draft = .ok (m, draft'))
    (named : p.path = some path)
    (declared : Table.get? draft'.scope.paths path = some shape)
    (steps : root = root₀ ++ m₀.steps ++ m.steps ++ after)
    (bound : ∀ l ∈ shape.labels, l.BoundBy draft m.steps)
    (kept : ∀ l ∈ shape.labels, l ∈ puts after →
      Rebound (earlier ++ [.match false (front ++ p :: back) condition]) later l)

namespace PathOrigin

variable {clauses : List Clause} {root : Traversal} {shape : PathShape} {clause : Clause}

lemma append (h : PathOrigin clauses root shape) (hdrafted : Drafted clauses root draft)
    (hputs : ∀ l ∈ shape.labels, l ∈ puts t → l ∈ clause.binds draft.scope) :
    PathOrigin (clauses ++ [clause]) (root ++ t) shape := by
  obtain @⟨earlier, later, front, back, p, condition, path, root₀, after, draft₀, draft₁, draft',
    m₀, m, rfl, drafted, reached, lowered, named, declared, rfl, bound, kept⟩ := h
  refine ⟨(append_assoc ..), drafted, reached, lowered, named, declared, (append_assoc ..),
    bound, ?_⟩
  intro l hl hput
  rw [puts_append] at hput
  rcases hput with hput | hput
  · obtain ⟨between, other, rest, root', draft', rfl, hbetween, hbinds⟩ := kept l hl hput
    exact ⟨between, other, rest ++ [clause], root', draft', by simp, hbetween, hbinds⟩
  · rw [append_cons] at hdrafted
    exact ⟨later, clause, [], _, draft, rfl, hdrafted, hputs l hl hput⟩

end PathOrigin

/-- Every path in scope after some clauses has an origin among them, as long as numbers fit into 32
bits. -/
theorem Drafted.origin_of_path {clauses : List Clause} {root : Traversal}
    (h : Drafted clauses root draft) :
    draft.next ≤ UInt32.size → ∀ {path : String} {shape : PathShape},
      Table.get? draft.scope.paths path = some shape →
        PathOrigin clauses root shape ∧ ∀ l ∈ shape.labels, l.Taken draft.next := by
  induction h with
  | nil => simp [Table.get?]
  | @clause clauses root steps draft draft' clause columns hbefore hopen hlow ih =>
    intro hsize path shape hget
    have heffect : clause.Effect draft steps draft' := Clause.effect_of_lower hlow
    rcases heffect.path hget with ⟨var, hold⟩ | ⟨ps, condition, rfl, hintroduced⟩
    · obtain ⟨horigin, htaken⟩ := ih (heffect.next.trans hsize) hold
      obtain ⟨row, hstarted, hquiet, -⟩ := exists_started root clause
      rw [hstarted, append_assoc]
      refine ⟨horigin.append hbefore fun l hl hput => ?_,
        fun l hl => (htaken l hl).mono heffect.next⟩
      rw [puts_append, puts_eq_empty fun s hs => (hquiet s hs).put, Set.empty_union] at hput
      -- The number of an element is not taken again.
      exact (heffect.puts l hput).resolve_right fun hnum => htaken l hl (hnum.mono le_rfl hsize)
    · obtain @⟨front, back, p, path', draft₁, draft₂, m₀, m, after, rfl, named, reached, lowered,
        declared, hsteps, bound, taken, kept⟩ := hintroduced
      have hroot :
        (if root.isEmpty && (Clause.match false (front ++ p :: back) condition).needsRow then
          oneRow else root) ++ steps = root ++ m₀.steps ++ m.steps ++ after := by
        simp [Clause.needsRow, hsteps]
      refine ⟨⟨rfl, hbefore, reached, lowered, named, declared, hroot, ?_, ?_⟩, ?_⟩
      · rintro _ ⟨element, helem, rfl⟩
        exact bound element helem
      · rintro _ ⟨element, helem, rfl⟩ hput
        exact absurd hput (kept hsize element helem)
      · rintro _ ⟨element, helem, rfl⟩
        exact taken element helem

/-- Wherever a query expands a path variable, the path has an origin among the clauses so far, and
the steps read labels of the path only. -/
theorem Query.pathOrigin {q : Query} {s : Statement} (h : q.statement = .ok s)
    {before after : List Clause} (hsplit : q.clauses = before ++ after) :
    (∃ root draft, Drafted before root draft) ∧
      ∀ root draft, Drafted before root draft → root <+: s.traversal ∧
        (draft.next ≤ UInt32.size → ∀ var t, draft.Expands var t →
          ∃ shape, PathOrigin before root shape ∧ ∀ l, ReadsLabel l t → l ∈ shape.labels) := by
  obtain ⟨whole, final, hdrafted, heq⟩ := q.exists_drafted h
  obtain ⟨root, draft, hfront, hstart⟩ := hdrafted.front hsplit
  refine ⟨⟨root, draft, hfront⟩, fun root' draft' h' => ?_⟩
  obtain ⟨rfl, rfl⟩ := hfront.unique h'
  refine ⟨hstart.trans (heq ▸ List.prefix_append _ _), fun hsize var t hexpands => ?_⟩
  obtain ⟨shape, hshape, hreads⟩ := hexpands.reads
  exact ⟨shape, (hfront.origin_of_path hsize hshape).1, hreads⟩

/-- `MATCH p = (a)-[r]->(b) WITH p AS q, a MATCH (a)-->(c) RETURN nodes(q)`. -/
def Query.renamed : Query := ⟨[
  .match false [{ path := some "p", start := { var := some "a" },
                  hops := [⟨{ var := some "r" }, { var := some "b" }⟩] }] none,
  .with { items := [⟨.var "p", some "q"⟩, ⟨.var "a", none⟩] },
  .match false [{ start := { var := some "a" }, hops := [⟨{}, { var := some "c" }⟩] }] none,
  .return { items := [⟨.call "nodes" false [.var "q"], none⟩] }]⟩

/-- The path has another name after WITH, and its last node no name at all. -/
theorem Query.pathOrigin_renamed : ∃ s root draft t, Query.renamed.statement = .ok s ∧
    Drafted (Query.renamed.clauses.take 3) root draft ∧ root <+: s.traversal ∧
      draft.next ≤ UInt32.size ∧
    draft.Expands "q" t ∧ ∃ shape, PathOrigin (Query.renamed.clauses.take 3) root shape ∧
      ∀ l, ReadsLabel l t → l ∈ shape.labels := by
  obtain ⟨s, hs⟩ : ∃ s, Query.renamed.statement = .ok s := by decide +kernel
  obtain ⟨⟨statement, draft⟩, hclauses, hsize, ⟨t, n'⟩, ht⟩ :
      ∃ r, (lowerClauses [] (Query.renamed.clauses.take 3)).run {} = .ok r ∧
      r.2.next ≤ UInt32.size ∧
        ∃ r', (Expr.call "nodes" false [.var "q"]).lower r.2.scope (.value .result) r.2.next =
        .ok r' := by
    decide +kernel
  have hdrafted : Drafted (Query.renamed.clauses.take 3) statement.traversal draft :=
    .of_run hclauses
  have hexpands : draft.Expands "q" t := .function (.inl (by decide +kernel)) ht
  obtain ⟨hstart, horigin⟩ := (Query.pathOrigin hs (List.take_append_drop 3 _).symm).2 _ _ hdrafted
  exact ⟨s, _, draft, t, hs, hdrafted, hstart, hsize, hexpands, horigin hsize "q" t hexpands⟩

/-- `MATCH p = (a)-[r]->(b) WITH p MATCH (b) RETURN p`. -/
def Query.reused : Query := ⟨[
  .match false [{ path := some "p", start := { var := some "a" },
                  hops := [⟨{ var := some "r" }, { var := some "b" }⟩] }] none,
  .with { items := [⟨.var "p", none⟩] },
  .match false [{ start := { var := some "b" } }] none,
  .return { items := [⟨.var "p", none⟩] }]⟩

/-- The path of the query: two markers, and the variable of the last node. -/
def PathShape.reused : PathShape :=
  ⟨[⟨.token (.pathStart "p"), .node⟩, ⟨.token (.pathEdge "p.1"), .relationship⟩,
    ⟨.named "b", .node⟩]⟩

/-- The program after WITH. -/
def Traversal.reusedFront : Traversal :=
  [.V, .as (.named "a"), .as (.token (.pathStart "p")), .outE [], .as (.named "r"),
    .as (.token (.pathEdge "p.1")),
    .inV, .as (.named "b"), .project [(.named "p", PathShape.reused.read .raw)],
    .as (.token (.freshId 1)),
    .select [.token (.freshId 1)], .selectKey (.named "p"), .as (.named "p")]

/-- The draft after WITH and some variables of later clauses. -/
def Draft.reused (vars : Table String Binding) : Draft where
  scope := { vars := ("p", ⟨.path, false⟩) :: vars, paths := [("p", .reused)] }
  next := 2

/-- The variable of the last node is bound again while the path is in scope, and what is returned as
the path ends in any node. -/
theorem Query.pathOrigin_reused : ∃ s front draft root draft' t, Query.reused.statement = .ok s ∧
    Drafted (Query.reused.clauses.take 2) front draft ∧ Drafted
    (Query.reused.clauses.take 3) root draft' ∧
    root = front ++ [.V, .as (.named "b")] ∧ draft'.Expands "p" t ∧ ReadsLabel (.named "b") t ∧
    s.traversal = root ++ [.project [(.named "p", t)]] := by
  have hfront : lowerClauses [] (Query.reused.clauses.take 2) {} = .ok (⟨Traversal.reusedFront, []⟩,
      .reused []) := by
    with_unfolding_all rfl
  have hroot : lowerClauses [] (Query.reused.clauses.take 3) {} =
      .ok (⟨Traversal.reusedFront ++ [.V, .as (.named "b")], []⟩,
      .reused [("b", ⟨.node, false⟩)]) := by
    with_unfolding_all rfl
  have hstmt : Query.reused.statement = .ok ⟨Traversal.reusedFront ++ [.V, .as (.named "b")] ++
      [.project [(.named "p", PathShape.reused.read .result)]], [⟨"p", .path⟩]⟩ := by
    with_unfolding_all rfl
  have hread : (Expr.var "p").lower (Draft.reused [("b", ⟨.node, false⟩)]).scope
      (.value .result) 2 = .ok (PathShape.reused.read .result, 2) := by
    with_unfolding_all rfl
  have hbind : (Draft.reused [("b", ⟨.node, false⟩)]).scope.binding? "p" = some ⟨.path, false⟩ := by
    decide
  refine ⟨_, _, _, _, _, _, hstmt, .of_run hfront, .of_run hroot, rfl, .value hbind rfl hread,
    ?_, rfl⟩
  simp [PathShape.reused, PathShape.read, PathElement.read, reads_cons, Step.reads, Step.children]

end CypherGremlin
