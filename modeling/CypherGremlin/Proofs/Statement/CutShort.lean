import CypherGremlin.Proofs.Statement.Conduct
import CypherGremlin.Proofs.Statement.Names
import CypherGremlin.Proofs.Statement.Reading
import CypherGremlin.Proofs.Statement.Scoped.OfQuery

/-!
# Writes that are cut short

Each clause has a conduct as the steps have one (`Clause.conduct`): MERGE, SET, REMOVE and DELETE
write, and so does CREATE unless all it names is in scope; a projection that sorts or aggregates
gathers the rows, and any other with LIMIT cuts them off.  The steps of a clause do together what
the clause does (`Clause.Lowers.conduct`).

`Query.cutsShort_iff` says which queries have a program that cuts writes short: those with a LIMIT
that neither sorts nor aggregates after a write, and those that delete and return nothing.
-/

namespace CypherGremlin

variable {ps : List Pattern} {condition : Option Expr} {scope : Scope} {draft draft' : Draft}
  {t : Traversal}

open Conduct List Traversal

/-! ## Clauses -/

/-- What a projection does to the rows.  One that gathers them does so before it cuts them off. -/
def Projection.conduct (p : Projection) : Conduct :=
  if p.items.any (·.expr.aggregates) || !p.orderBy.isEmpty then .gathers
  else if p.limit.isSome then .cuts
  else .passes

/-- CREATE of the pattern creates something, where the names are in scope. -/
def Pattern.creates (names : List String) (p : Pattern) : Bool :=
  !p.hops.isEmpty || !p.start.var.any fun v => names.contains v

/-- The clause writes or collects what is to be deleted, where the names are in scope. -/
def Clause.mutates (names : List String) : Clause → Bool
  | .create ps => ps.any (·.creates names)
  | .merge _ => true
  | .set items => !items.isEmpty
  | .remove items => !items.isEmpty
  | .delete _ targets => !targets.isEmpty
  | .match _ _ _ | .unwind _ _ | .with _ | .return _ => false

/-- What a clause does to the rows, where the names are in scope. -/
def Clause.conduct (names : List String) : Clause → Conduct
  | .with p | .return p => p.conduct
  | clause => if clause.mutates names then .writes else .passes

/-- The clause collects something that is to be deleted. -/
def Clause.deletes : Clause → Bool
  | .delete _ targets => !targets.isEmpty
  | _ => false

def Buckets.inUse (buckets : Buckets) : Bool := buckets.plain || buckets.detached

/-- What some clauses do one after another, where the names are in scope before the first. -/
def clauseConducts (names : List String) : List Clause → List Conduct
  | [] => []
  | clause :: rest => clause.conduct names :: clauseConducts (clause.namesAfter names) rest

/-! ### MATCH -/

lemma Traversal.passes_rebinding (row : Label) (vars : List String) :
    Passes (rebinding row vars) := by
  refine forall_mem_cons.2 ⟨rfl, forall_mem_flatMap.2 fun var _ => ?_⟩
  simp [Step.conduct]

section

lemma Draft.Tests.passes (h : draft.Tests condition t draft') : t.Passes := by
  cases h with
  | none => exact forall_mem_nil _
  | some => exact forall_mem_singleton.2 rfl

namespace Matching

lemma passes_differences (labels : List Label) : (differences labels).Passes := by
  induction labels with
  | nil => exact forall_mem_nil _
  | cons l rest ih => exact forall_mem_append.2 ⟨forall_mem_map.2 fun _ _ => rfl, ih⟩

lemma All.passes {isOptional : Bool} (h : All isOptional draft ps condition t draft') :
    t.Passes := by
  obtain ⟨hps, htests⟩ := h
  exact ((Walks.passes (allSteps_of_forall hps.walks)).append (passes_differences _)).append
    htests.passes

lemma conduct_choice {matched : Traversal} (h : matched.Calm) (vars : List String) :
    (choice matched vars).conduct = .passes := by
  obtain ⟨-, hchild, -⟩ := allSteps_cons.1 (closed_choice closed_calm h vars)
  have harms : [_, _].any alters = false := any_eq_false.2 fun t ht =>
    Bool.eq_false_iff.1 (Calm.alters (hchild t ht))
  rw [choice, Step.conduct, harms]
  rfl

lemma Tries.passes (h : Tries draft ps condition t draft') : t.Passes := by
  cases h with
  | checks hall => exact forall_mem_singleton.2 (conduct_choice hall.calm _)
  | binds hall => exact forall_mem_cons.2 ⟨conduct_choice hall.calm _, passes_rebinding _ _⟩

end Matching

end

/-! ### Projections -/

namespace Projecting

variable {p : Projection} {columns : List (Item Expr)}

/-- The conduct of gathering, if there is something to gather. -/
def gathering (b : Bool) : List Conduct := if b then [.gathers] else []

lemma Makes.conduct {mode : Mode} (h : Makes mode draft columns t draft') :
    Like t.conducts (gathering (columns.any (·.isAggregate))) := by
  have hgroup (entries : List (Label × Traversal)) : Like (groupRows entries).conducts
      [.gathers] := by
    rw [groupRows]
    split
    · exact .refl _
    · exact (by decide : Like [.passes, .gathers] [.gathers])
  have hproj (entries : List (Label × Traversal)) : Like (conducts [.project entries]) [] :=
    (by decide : Like [.passes] [])
  cases h with
  | perRow hplain => exact hplain ▸ hproj _
  | overall haggregating =>
    rw [haggregating, conducts_append]
    exact (hgroup _).append (hproj _)
  | perGroup haggregating =>
    rw [haggregating]
    exact (by decide : Like [.gathers, .passes, .passes] [.gathers])

lemma delivers_paging_conduct (p : Projection) :
    Delivers (paging p) fun t => Like t.conducts (if p.limit.isSome then [.cuts] else []) := by
  refine (delivers_paging p).mono fun t ht => ?_
  obtain ⟨skip, limit, ⟨-, hlimit, -⟩, rfl⟩ := ht
  rw [hlimit, Option.isSome_map]
  cases limit with
  | none => cases skip with
    | none => exact .refl []
    | some n => exact (by decide : Like [.passes] [])
  | some n => cases skip with
    | none => exact .refl [.cuts]
    | some m => exact .refl [.cuts]

lemma Modifies.conduct (h : Modifies draft p columns t draft') :
    Like t.conducts (gathering (!p.orderBy.isEmpty) ++ if p.limit.isSome then [.cuts] else []) := by
  obtain @⟨keys, _, _, horder, hpage⟩ := h
  have hdist : Like (conducts (if p.distinct then [.dedup] else [])) [] := by
    cases p.distinct <;> decide
  have hsorts : Like (conducts (if keys.isEmpty then [] else [.order keys]))
      (gathering (!p.orderBy.isEmpty)) := by
    generalize p.orderBy = sorts at horder
    cases horder with
    | nil => exact .refl []
    | cons => exact .refl [.gathers]
  rw [conducts_append, conducts_append]
  exact (hdist.append hsorts).append ((delivers_paging_conduct p).result _ hpage)

lemma Lists.isAggregate {item : ProjectionItem} {column : Item Expr} (h : Lists item column) :
    column.isAggregate = item.expr.aggregates := by
  obtain ⟨-, -, -, hplays⟩ := h
  obtain ⟨name, e, role⟩ := column
  generalize item.expr = e' at hplays ⊢
  cases hplays with
  | key h => exact h.symm
  | countAll => rfl
  | aggregate hname harg =>
    rw [Expr.aggregates, hname]
    rfl

lemma Columns.any_isAggregate (h : Columns scope p columns) :
    columns.any (·.isAggregate) = p.items.any (·.expr.aggregates) := by
  obtain ⟨-, -, listed, rfl, hlisted⟩ := h
  have hstarred : (starred scope p).any (·.isAggregate) = false := by
    rw [starred]
    split
    · simp [variableItem, Item.isAggregate]
    · rfl
  rw [any_append, hstarred, Bool.false_or]
  clear hstarred
  generalize p.items = written at hlisted
  induction hlisted with
  | nil => rfl
  | cons hitem _ ih => rw [any_cons, any_cons, hitem.isAggregate, ih]

lemma Makes.conduct_modified {mode : Mode} {rows modifiers : Traversal} {draft₁ : Draft}
    (h : Makes mode draft columns rows draft₁) (hmods : Modifies draft₁ p columns modifiers draft')
    (hcols : Columns draft.scope p columns) : Like (rows ++ modifiers).conducts [p.conduct] := by
  have hrows := h.conduct
  rw [hcols.any_isAggregate] at hrows
  rw [conducts_append]
  refine (hrows.append hmods.conduct).trans ?_
  rw [Projection.conduct]
  generalize p.items.any (·.expr.aggregates) = aggregates, p.orderBy.isEmpty = unsorted,
    p.limit.isSome = limited
  revert aggregates unsorted limited
  decide

lemma Carries.conduct (h : Carries draft p t draft') : Like t.conducts [p.conduct] := by
  obtain ⟨-, hcols, hrows, hmods, htests⟩ := h
  rw [append_assoc, conducts_append]
  exact (hrows.conduct_modified hmods hcols).append
    ((passes_rebinding _ _).append htests.passes).like

end Projecting

/-! ### CREATE and MERGE -/

namespace Creating

variable {names : List String}

lemma Stores.conduct {entries : List (String × Expr)} (h : Stores draft entries t draft') :
    ∀ s ∈ t, s.conduct = .writes := by
  induction h with
  | nil => exact forall_mem_nil _
  | null _ _ ih => exact ih
  | constant _ _ _ _ ih | computed _ _ _ _ ih => exact forall_mem_cons.2 ⟨rfl, ih⟩

lemma writing_element {s : Step} {assignments : Traversal} (hs : s.conduct = .writes)
    (h : ∀ s ∈ assignments, s.conduct = .writes) (l : Label) :
    Writing true (conducts (s :: assignments ++ [.as l])) := by
  have hwrites : Writing true (conducts (s :: assignments)) :=
    .of_forall (forall_mem_map.2 (forall_mem_cons.2 ⟨hs, h⟩))
  have hlabel : Writing false (conducts [.as l]) := (by decide : Like [.passes] [])
  rw [conducts_append]
  exact hwrites.append hlabel

lemma Node.writing {pattern : NodePattern} {l : Label} (h : Node draft pattern l t draft')
    (hdraft : draft.Knows names) : Writing (!pattern.var.any fun v => names.contains v) t.conducts ∧
      ((pattern.var.any fun v => names.contains v) = true → draft' = draft) := by
  have hbinds : (fun v => names.contains v) = draft.scope.binds := by
    funext v
    rw [Bool.eq_iff_iff, contains_iff_mem, hdraft v]
  rw [hbinds]
  cases h with
  | known hvar _ _ hbound =>
    rw [hvar, Option.any_some, Scope.binds_of_binding? hbound]
    exact ⟨.refl [], fun _ => rfl⟩
  | new hfree _ _ hstores =>
    have hnone : pattern.var.any draft.scope.binds = false := by
      simpa [Option.any_eq_false] using hfree
    rw [hnone]
    exact ⟨writing_element rfl hstores.conduct _, fun h => absurd h Bool.false_ne_true⟩

lemma Relationship.writing {rel : RelPattern} {first second : Label}
    (h : Relationship draft rel first second t draft') : Writing true t.conducts := by
  obtain ⟨-, -, -, hstores, -⟩ := h
  exact writing_element rfl hstores.conduct _

lemma Hops.writing {hops : List Hop} {previous : Label} (h : Hops previous draft hops t draft') :
    Writing (!hops.isEmpty) t.conducts := by
  induction h with
  | nil => exact .refl []
  | cons hnode hrel _ ih =>
    have hall := ((hnode.writing (Draft.knows_keys _)).1.append hrel.writing).append ih
    rw [Bool.or_true, Bool.true_or, ← conducts_append, ← conducts_append] at hall
    exact hall

lemma Creates.writing {p : Pattern} (h : Creates draft p t draft') (hdraft : draft.Knows names) :
    Writing (p.creates names) t.conducts ∧ (p.creates names = false → draft' = draft) := by
  obtain ⟨-, hstart, hhops⟩ := h
  obtain ⟨hwriting, hkept⟩ := hstart.writing hdraft
  constructor
  · have hall := hwriting.append hhops.writing
    rw [Bool.or_comm, ← conducts_append] at hall
    exact hall
  · intro hcreates
    simp only [Pattern.creates, Bool.or_eq_false_iff, Bool.not_eq_eq_eq_not, Bool.not_false,
      List.isEmpty_iff] at hcreates
    rw [hcreates.1] at hhops
    cases hhops
    exact hkept hcreates.2

lemma CreatesAll.writing (h : CreatesAll draft ps t draft') :
    ∀ {names : List String}, draft.Knows names → Writing (ps.any (·.creates names)) t.conducts := by
  induction h with
  | nil => exact fun _ => .refl []
  | @cons _ _ _ p _ _ _ hp _ ih =>
    intro names hdraft
    obtain ⟨hwriting, hkept⟩ := hp.writing hdraft
    rw [conducts_append, any_cons]
    cases hcreates : p.creates names with
    | true =>
      -- Whether the other patterns write does not matter.
      rw [hcreates] at hwriting
      rw [Bool.true_or]
      exact hwriting.append (ih (hp.gains.knows hdraft))
    | false =>
      obtain rfl := hkept hcreates
      rw [hcreates] at hwriting
      exact hwriting.append (ih hdraft)

end Creating

lemma Merging.Merges.writing {p : Pattern} (h : Merges draft p t draft') :
    Writing true t.conducts := by
  have hwriting {find create : Traversal} (l : Label) (h : alters create = true) :
      Writing true (conducts [.coalesce [find, create], .as l]) := by
    have hconduct : (Step.coalesce [find, create]).conduct = .writes := by
      rw [Step.conduct, any_cons, any_cons, h, Bool.true_or, Bool.or_true]
      rfl
    rw [conducts, map_cons, hconduct]
    exact (by decide : Like [.writes, .passes] [.writes])
  cases h with
  | node | relationship => exact hwriting _ (alters_cons rfl)

/-! ### SET, REMOVE and DELETE -/

lemma conduct_sideEffect (h : t.alters = true) : (Step.sideEffect t).conduct = .writes := by
  rw [Step.conduct, h]
  rfl

namespace Updating

lemma alters_removal (target : Traversal) (key : String) :
    (target ++ removal key).alters = true := by
  rw [removal, ← singleton_append, ← append_assoc]
  exact alters_concat rfl

lemma Sets.writing {items : List Assignment} (h : Sets draft items t draft') :
    Writing (!items.isEmpty) t.conducts := by
  induction h with
  | nil => exact .refl []
  | @cons _ _ _ item _ target write _ _ _ hwritten _ ih =>
    have halters : (target ++ write).alters = true := by
      cases hwritten with
      | null => exact alters_removal target item.key
      | constant | computed => exact alters_concat rfl
    have hfirst : Writing true (conducts [.sideEffect (target ++ write)]) := by
      rw [conducts, map_singleton, conduct_sideEffect halters]
      exact .refl _
    exact hfirst.append ih

lemma Removes.writing {items : List PropertyRef} (h : Removes scope items t) :
    Writing (!items.isEmpty) t.conducts := by
  have hwrites : ∀ s ∈ t, s.conduct = .writes := by
    intro s hs
    obtain ⟨item, -, -, target, -, rfl⟩ := exists_mem_of_forall₂ h s hs
    exact conduct_sideEffect (alters_removal _ _)
  have hall : Writing (!t.conducts.isEmpty) t.conducts := .of_forall (forall_mem_map.2 hwrites)
  have hempty : t.conducts.isEmpty = items.isEmpty := by
    cases h with
    | nil => rfl
    | cons => rfl
  rwa [hempty] at hall

end Updating

namespace Deleting

/-- Every target is marked, since paths have elements. -/
lemma MarksAll.isEmpty {detach : Bool} {es : List Expr} {marks : List Mark}
    (h : MarksAll scope detach es marks) (hpaths : ∀ entry ∈ scope.paths, entry.2.Marked) :
    marks.isEmpty = es.isEmpty := by
  cases h with
  | nil => rfl
  | cons hmarks _ =>
    cases hmarks with
    | element | dynamic => rfl
    | path _ _ hknown =>
      obtain ⟨_, _, helems, -⟩ := hpaths _ (Table.mem_of_get? hknown)
      rw [helems]
      rfl

lemma writing_marks (marks : List Mark) :
    Writing (!marks.isEmpty) (conducts (marks.map Mark.step)) := by
  have hwrites : ∀ c ∈ conducts (marks.map Mark.step), c = .writes := by
    refine forall_mem_map.2 (forall_mem_map.2 fun mark _ => ?_)
    exact conduct_sideEffect (alters_concat (a := [_, _]) rfl)
  have hall := Writing.of_forall hwrites
  rwa [conducts, isEmpty_map, isEmpty_map] at hall

lemma inUse_mark (draft : Draft) (marks : List Mark) :
    (mark draft marks).buckets.inUse = (draft.buckets.inUse || !marks.isEmpty) := by
  have huse (buckets : Buckets) (mark : Mark) : (mark.use buckets).inUse = true := by
    rw [Mark.use]
    split <;> simp [Buckets.inUse]
  rw [mark]
  generalize draft.buckets = buckets
  induction marks generalizing buckets with
  | nil => exact (Bool.or_false _).symm
  | cons mark rest ih =>
    rw [foldl_cons, ih, huse, Bool.true_or, isEmpty_cons, Bool.not_false, Bool.or_true]

end Deleting

namespace Clause.Lowers

variable {clause : Clause} {columns : List Column}

theorem conduct {names : List String} (h : clause.Lowers draft columns t draft')
    (hdraft : draft.Knows names) (hpaths : ∀ entry ∈ draft.scope.paths, entry.2.Marked) :
    Like t.conducts [clause.conduct names] := by
  have hwriting {b : Bool} {t : Traversal} (h : Writing b t.conducts) :
      Like t.conducts [if b then .writes else .passes] := by
    refine Like.trans h ?_
    cases b <;> decide
  have hpasses {t : Traversal} (h : t.Passes) : Like t.conducts [.passes] :=
    hwriting (b := false) h.like
  cases h with
  | «match» h => exact hpasses h.passes
  | optionalMatch h => exact hpasses h.passes
  | unwind h =>
    obtain ⟨-, -⟩ := h
    exact (by decide : Like [.passes, .passes] [.passes])
  | «with» h => exact h.conduct
  | «return» h =>
    obtain ⟨-, hcols, hrows, hmods⟩ := h
    exact hrows.conduct_modified hmods hcols
  | create h => exact hwriting (h.writing hdraft)
  | merge h | set h | remove h => exact hwriting h.writing
  | @delete _ _ marks h =>
    have hmarks := Deleting.writing_marks marks
    rw [h.isEmpty hpaths] at hmarks
    exact hwriting hmarks

theorem inUse (h : clause.Lowers draft columns t draft')
    (hpaths : ∀ entry ∈ draft.scope.paths, entry.2.Marked) :
    draft'.buckets.inUse = (draft.buckets.inUse || clause.deletes) := by
  have hkept {draft' : Draft} (h : draft'.buckets = draft.buckets) :
      draft'.buckets.inUse = (draft.buckets.inUse || false) := by rw [h, Bool.or_false]
  cases h with
  | «match» h | optionalMatch h | unwind h | create h | merge h => exact hkept h.gains.buckets
  | «with» h =>
    obtain ⟨-, -, hrows, hmods, htests⟩ := h
    exact hkept (htests.counts.buckets.trans (hrows.counts.trans hmods.counts).buckets)
  | «return» h =>
    obtain ⟨-, -, hrows, hmods⟩ := h
    exact hkept (hrows.counts.trans hmods.counts).buckets
  | set h => exact hkept h.counts.buckets
  | remove => exact hkept rfl
  | delete h => rw [Deleting.inUse_mark, h.isEmpty hpaths, deletes]

end Clause.Lowers

/-! ## Queries -/

/-- The program does what the clauses do, and a bucket is in use if one of them deletes. -/
theorem LowersAll.conduct {root : Traversal} {clauses : List Clause} {statement : Statement}
    (h : LowersAll root draft clauses statement draft') :
    ∀ {names : List String}, draft.Knows names → draft.Holds Set.univ Set.univ →
      Like statement.traversal.conducts (root.conducts ++ clauseConducts names clauses) ∧
        draft'.buckets.inUse = (draft.buckets.inUse || clauses.any Clause.deletes) := by
  induction h with
  | nil =>
    intro names _ _
    rw [clauseConducts, append_nil]
    exact ⟨.refl _, (Bool.or_false _).symm⟩
  | @cons root steps draft draft₁ _ clause rest _ _ _ hclause _ ih =>
    intro names hdraft hholds
    have hsteps := (hclause.continues hholds (fun _ _ => Set.mem_univ _) clause.within_any).1
    have hholds₁ := hsteps.holds.mono (Set.subset_univ _) (Set.subset_univ _)
    obtain ⟨hlike, hinUse⟩ := ih (hclause.knows hdraft) hholds₁
    have hstarted : Like (conducts (clause.started root)) root.conducts := by
      rw [Clause.started]
      split
      · rename_i hempty
        rw [Bool.and_eq_true, List.isEmpty_iff] at hempty
        rw [hempty.1]
        exact (by decide : Like [.passes] [])
      · exact .refl _
    constructor
    · refine hlike.trans ?_
      have hfirst := hstarted.append (hclause.conduct hdraft hholds.marked)
      rw [conducts_append, clauseConducts, ← singleton_append, ← append_assoc]
      exact hfirst.append (.refl _)
    · rw [hinUse, hclause.inUse hholds.marked, any_cons, Bool.or_assoc]

/-- What the steps after the last clause do.  What is deleted is deleted from the gathered rows. -/
lemma conducts_closing (buckets : Buckets) (returns : Bool) :
    Like (closing buckets returns).conducts
    ((if buckets.inUse then [.gathers, .writes] else if returns then [] else [.gathers]) ++
        if returns then [] else [.cuts]) := by
  obtain ⟨plain, detached⟩ := buckets
  cases plain <;> cases detached <;> cases returns <;> decide

/-- The program of a query cuts writes short if and only if a write is followed by LIMIT, with no
sorting or aggregating projection from then on up to the one with LIMIT itself, or if something is
deleted and nothing is returned. -/
theorem Query.cutsShort_iff {q : Query} {s : Statement} (h : q.statement = .ok s) :
    CutsShort s.traversal.conducts ↔
      CutsShort (clauseConducts [] q.clauses) ∨ q.clauses.any Clause.deletes = true ∧
      q.returns = false := by
  obtain ⟨statement, draft, hall, -, htrav⟩ := Query.lowersAll h
  have hempty : Draft.Knows [] {} := Draft.knows_keys {}
  have hprogram := hall.conduct hempty (Draft.holds_empty _ _)
  have hlike : Like statement.traversal.conducts (clauseConducts [] q.clauses) := hprogram.1
  have hinUse : draft.buckets.inUse = q.clauses.any Clause.deletes := hprogram.2
  have hwhole := hlike.append (conducts_closing draft.buckets q.returns)
  rw [htrav, conducts_append, hwhole.cutsShort, hinUse, cutsShort_iff_hits, cutsShort_iff_hits,
    hits_append, Bool.or_eq_true]
  generalize Conduct.pending false (clauseConducts [] q.clauses) = pending,
    q.clauses.any Clause.deletes = deletes, q.returns = returns
  refine or_congr Iff.rfl ?_
  revert pending deletes returns
  decide

/-- `MATCH (n) SET n.seen = 1 WITH n ORDER BY n.age LIMIT 1 DELETE n RETURN n`. -/
def Query.eldestSeen : Query where
  clauses := [
    .match false [⟨none, ⟨some "n", [], []⟩, []⟩] none,
    .set [⟨"n", "seen", .literal (.int 1)⟩],
    .with { items := [⟨.var "n", none⟩], orderBy := [⟨.property (.var "n") "age", false⟩],
            limit := some (.literal (.int 1)) },
    .delete false [.var "n"],
    .return { items := [⟨.var "n", none⟩] }]

/-- The rows are sorted before they are cut off, and what is deleted is returned. -/
theorem Query.cutsShort_iff_eldestSeen : ∃ s, Query.eldestSeen.statement = .ok s ∧
    ¬ CutsShort s.traversal.conducts := by
  obtain ⟨s, hok⟩ : ∃ s, Query.eldestSeen.statement = .ok s := by decide +kernel
  refine ⟨s, hok, fun h => ?_⟩
  have hclauses : ¬ (CutsShort (clauseConducts [] Query.eldestSeen.clauses) ∨
      Query.eldestSeen.clauses.any Clause.deletes = true ∧ Query.eldestSeen.returns = false) := by
    decide
  exact hclauses ((Query.cutsShort_iff hok).1 h)

/-- `MATCH (n) SET n.seen = 1 RETURN n LIMIT 1`. -/
def Query.firstSeen : Query where
  clauses := [
    .match false [⟨none, ⟨some "n", [], []⟩, []⟩] none,
    .set [⟨"n", "seen", .literal (.int 1)⟩],
    .return { items := [⟨.var "n", none⟩], limit := some (.literal (.int 1)) }]

/-- `MATCH (n) DELETE n`. -/
def Query.deleteAll : Query where
  clauses := [.match false [⟨none, ⟨some "n", [], []⟩, []⟩] none, .delete false [.var "n"]]

/-- A LIMIT after a write, and a deletion after which nothing is returned. -/
theorem Query.cutsShort_firstSeen_deleteAll :
    (∃ s, Query.firstSeen.statement = .ok s ∧ CutsShort s.traversal.conducts) ∧
      ∃ s, Query.deleteAll.statement = .ok s ∧ CutsShort s.traversal.conducts := by
  simp only [cutsShort_iff_hits]
  decide +kernel

end CypherGremlin
