import CypherGremlin.Proofs.Statement.Scoped.OfQuery

/-!
# Columns and their tags

RETURN gives two things that must agree: the steps that make the rows, and the table of columns that
reading the rows goes by.  The kind of a column is computed from the scope alone, by
`Expr.columnKind`.  What a column hands back is made in several places: variables and calls have
tags of their own, paths are tagged element by element, and what rows are grouped by gets its tag
after the grouping.

* `ColumnKind.Promises` says what a traversal has to end in to be read as a column of a kind.
* `Expr.Lowers.promises` is the agreement for values, `Projecting.Makes.fill` for whole projections.
* `Query.statement_handsBack` is the agreement for queries.
-/

namespace CypherGremlin

variable {draft draft' : Draft} {t : Traversal} {entries : List (Label × Traversal)}
  {p : Projection}

open List

/-! ## What columns promise -/

def elementEntries (token : Token) : List (Label × Traversal) := [(.token token, [.valueMap true])]

/-- The map of a relationship under a token, and the identities of its ends. -/
def relationshipEntries (token : Token) : List (Label × Traversal) :=
  [(.token token, [.valueMap true]), (.token .inV, [.inV, .id]), (.token .outV, [.outV, .id])]

/-- The traversal ends in a choice: null stays null, and all else is put into a map with the given
entries. -/
def Traversal.EndsInTag (entries : List (Label × Traversal)) (t : Traversal) : Prop :=
  ∃ before inner, t = before ++ [.choose (.predicate (.neq .null)) (inner ++ [.project entries])
    [.constant .null]]

inductive TagsPosition : Nat → List (Label × Traversal) → Prop
  | start (path : String) : TagsPosition 0 (elementEntries (.pathStart path))
  | edge (k : Nat) (edge : String) : TagsPosition (2 * k + 1) (relationshipEntries (.pathEdge edge))
  | node (k : Nat) : TagsPosition (2 * k + 2) (elementEntries .element)

/-- What a traversal has to be like to be read as a column of the kind. -/
def ColumnKind.Promises : ColumnKind → Traversal → Prop
  | .node, t => t.EndsInTag (elementEntries .element)
  | .relationship, t => t.EndsInTag (relationshipEntries .relationship)
  | .id, t => t.EndsInTag [(.token .id, [.id])] ∨ t.EndsInTag [(.token .id, [.identity])]
  | .path, t =>
    ∃ (k : Nat) (branches : List Traversal), t = [.union branches, .fold] ∧
    branches.length = 2 * k + 1 ∧ ∀ position branch, branches[position]? = some branch →
        ∃ l entries, branch = [.select [l], .project entries] ∧ TagsPosition position entries
  | .value, _ => True

/-- The entry of a map is what the column says. -/
structure Column.FilledBy (column : Column) (entry : Label × Traversal) : Prop where
  key : entry.1 = .named column.name
  value : column.kind.Promises entry.2

/-- The steps of DISTINCT, ORDER BY, SKIP and LIMIT. -/
inductive Step.IsModifier : Step → Prop
  | dedup : IsModifier .dedup
  | order (keys : List (Traversal × SortOrder)) : IsModifier (.order keys)
  | skip (n : UInt64) : IsModifier (.skip n)
  | limit (n : UInt64) : IsModifier (.limit n)
  | range (low high : UInt64) : IsModifier (.range low high)

lemma tagsPosition_hops {hops : List (String × Label)} (hhops : ∀ hop ∈ hops, hop.2.IsElement)
    (k : Nat) : ∀ i element, (hops.flatMap hopElements)[i]? = some element →
      ∃ entries, element.tag (2 * k + 1 + i) = .project entries ∧ TagsPosition
      (2 * k + 1 + i) entries := by
  induction hops generalizing k with
  | nil => simp
  | cons hop rest ih =>
    obtain ⟨hhop, hrest⟩ := forall_mem_cons.1 hhops
    obtain ⟨edge, label⟩ := hop
    intro i element helem
    obtain _ | _ | i := i
    · obtain rfl : _ = element := Option.some.inj helem
      exact ⟨_, rfl, .edge k edge⟩
    · obtain rfl : _ = element := Option.some.inj helem
      rcases hhop with ⟨var, rfl⟩ | ⟨n, rfl⟩
      all_goals exact ⟨_, rfl, .node k⟩
    · have hpos : 2 * (k + 1) + 1 + i = 2 * k + 1 + (i + 1 + 1) := by omega
      simpa only [hpos] using ih hrest (k + 1) i element helem

lemma PathShape.Marked.promises {shape : PathShape} (h : shape.Marked) :
    ColumnKind.path.Promises (shape.read .result) := by
  obtain ⟨path, hops, helems, hhops⟩ := h
  refine ⟨hops.length, _, rfl, ?_, fun position branch hbranch => ?_⟩
  · simp [helems, hopElements, Nat.mul_comm]
  · rw [getElem?_mapIdx, helems] at hbranch
    obtain ⟨element, helem, rfl⟩ := Option.map_eq_some_iff.1 hbranch
    obtain _ | i := position
    · obtain rfl : _ = element := Option.some.inj helem
      exact ⟨_, _, rfl, .start path⟩
    · obtain ⟨entries, htag, hpos⟩ := tagsPosition_hops hhops 0 i element helem
      have hsucc : 2 * 0 + 1 + i = i + 1 := by omega
      rw [hsucc] at htag hpos
      exact ⟨element.label, entries, by rw [← htag]; rfl, hpos⟩

variable {scope : Scope}

lemma Scope.yields_promises (hmarked : ∀ entry ∈ scope.paths, entry.2.Marked) (var : String) :
    Yields (scope.read var .result) ((Expr.var var).columnKind scope).Promises := by
  rw [Scope.read, Scope.lookup, Expr.columnKind]
  cases scope.binding? var with
  | none => exact .error
  | some binding =>
    obtain ⟨kind, nullable⟩ := binding
    cases kind with
    | node | relationship => exact .pure ⟨[_], [], rfl⟩
    | path =>
      have hshape : Yields (scope.lookupPath var "path") PathShape.Marked := by
        rw [Scope.lookupPath]
        cases hget : Table.get? scope.paths var with
        | none => exact .error
        | some shape => exact .ok (hmarked _ (Table.mem_of_get? hget))
      exact hshape.bind fun shape hshape => .pure hshape.promises
    | map | value => exact .pure trivial

/-- The value of an expression has the tag that the kind of its column promises. -/
theorem Expr.Lowers.promises {e : Expr} (h : e.Lowers scope (.value .result) t)
    (hmarked : ∀ entry ∈ scope.paths, entry.2.Marked) : (e.columnKind scope).Promises t := by
  cases h with
  | var _ _ hfound => exact Scope.yields_promises hmarked _ _ hfound
  | coalesce _ hname | range _ hname | existence _ hname | pathLength _ hname =>
    rw [Expr.columnKind, hname]
    exact trivial
  | pathPart _ _ hname =>
    rw [Expr.columnKind]
    rcases hname with hname | hname <;> rw [hname] <;> exact trivial
  | @function _ name _ _ _ t _ happlied =>
    -- These functions tag what they give by themselves.
    rw [Expr.columnKind]
    cases hname : Function.ofName name <;> rw [hname] at happlied
    case id =>
      obtain rfl := Except.ok.inj happlied
      exact .inl ⟨t, [], rfl⟩
    case startNode =>
      obtain rfl := Except.ok.inj happlied
      exact ⟨t, [.outV], rfl⟩
    case endNode =>
      obtain rfl := Except.ok.inj happlied
      exact ⟨t, [.inV], rfl⟩
    all_goals exact trivial
  | _ => exact trivial

namespace Projecting

/-! ## Rows -/

variable {items : List (Item Expr)}

/-- The entries are what the columns of the items say. -/
def Fill (scope : Scope) (items : List (Item Expr)) (entries : List (Label × Traversal)) : Prop :=
  List.Forall₂ (fun item entry => (Item.resultColumn scope item).FilledBy entry) items entries

lemma Entries.fill (h : Entries .result draft items entries draft')
    (hscope : draft.scope = scope) (hmarked : ∀ entry ∈ scope.paths, entry.2.Marked)
    (hkeys : ∀ item ∈ items, item.isAggregate = false) : Fill scope items entries := by
  induction h with
  | nil => exact .nil
  | cons hval _ ih =>
    obtain ⟨hkey, hkeys⟩ := forall_mem_cons.1 hkeys
    have hcounts := hval.counts.scope
    subst hscope
    exact .cons ⟨rfl, by simpa [Item.resultColumn, hkey] using hval.lowers.promises hmarked⟩
      (ih hcounts hkeys)

/-- Labelling the arguments of aggregates changes nothing else about the columns. -/
structure SameColumn (item : Item Expr) (column : Item Label) : Prop where
  name : column.name = item.name
  expr : column.expr = item.expr
  isAggregate : column.isAggregate = item.isAggregate

lemma Inputs.sameColumn {inputs : List (Item Label)}
    (h : Inputs .result draft items inputs entries draft') :
    List.Forall₂ SameColumn items inputs := by
  induction h with
  | nil => exact .nil
  | key _ ih | countAll _ ih | aggregate _ _ ih => exact .cons ⟨rfl, rfl, rfl⟩ ih

lemma keyTag_promises {kind : ColumnKind} (h : kind ≠ .path) (before : Traversal) :
    kind.Promises (before ++ keyTag .result kind) := by
  cases kind with
  | node | relationship => exact ⟨before, [], rfl⟩
  | id => exact .inr ⟨before, [], rfl⟩
  | path => exact absurd rfl h
  | value => trivial

/-- A column that is computed from a group gets the tag that it promises after the grouping. -/
lemma filledBy_groupColumn {item : Item Expr} {column : Item Label} (hsame : SameColumn item column)
    (hpath : column.isAggregate = false → column.expr.columnKind scope ≠ .path) :
    (Item.resultColumn scope item).FilledBy
    (.named column.name, groupColumn scope .result column) := by
  refine ⟨congrArg Label.named hsame.name, ?_⟩
  rw [Item.resultColumn, groupColumn, ← hsame.isAggregate, ← hsame.expr]
  cases hcol : column.isAggregate with
  | true => trivial
  | false => exact keyTag_promises (hpath hcol) _

lemma filledBy_of_isAggregate {item : Item Expr} {column : Item Label}
    (hsame : SameColumn item column) (hagg : column.isAggregate = true) (t : Traversal) :
    (Item.resultColumn scope item).FilledBy (.named column.name, t) := by
  refine ⟨congrArg Label.named hsame.name, ?_⟩
  rw [Item.resultColumn, ← hsame.isAggregate, hagg]
  trivial

lemma fill_map {P : Item Label → Prop} {f : Item Label → Traversal}
    (hf : ∀ item column, SameColumn item column → P column →
      (Item.resultColumn scope item).FilledBy (.named column.name, f column))
    {items : List (Item Expr)} {columns : List (Item Label)}
    (hcols : List.Forall₂ SameColumn items columns) (hP : ∀ column ∈ columns, P column) :
    Fill scope items (columns.map fun column => (.named column.name, f column)) := by
  rw [Fill, forall₂_map_right_iff]
  induction hcols with
  | nil => exact .nil
  | cons hsame _ ih =>
    obtain ⟨hcol, hrest⟩ := forall_mem_cons.1 hP
    exact .cons (hf _ _ hsame hcol) (ih hrest)

/-- The rows that RETURN hands back are maps that are filled as the columns say. -/
theorem Makes.fill (h : Makes .result draft items t draft')
    (hmarked : ∀ entry ∈ draft.scope.paths, entry.2.Marked) :
    ∃ before entries, t = before ++ [.project entries] ∧ Fill draft.scope items entries := by
  cases h with
  | perRow hplain hvals =>
    exact ⟨[], _, rfl, hvals.fill rfl hmarked (by simpa [any_eq_false] using hplain)⟩
  | overall _ hinputs hall =>
    exact ⟨_, _, rfl, fill_map (fun item column hsame hagg => filledBy_of_isAggregate hsame hagg _)
      hinputs.sameColumn (all_eq_true.1 hall)⟩
  | perGroup _ hinputs _ hpaths =>
    -- Rows are not grouped by paths.
    refine ⟨[_, _], _, rfl,
      fill_map (fun item column => filledBy_groupColumn) hinputs.sameColumn ?_⟩
    exact fun input hinput hkey => hpaths input (mem_filter.2 ⟨hinput, by simp [hkey]⟩)

lemma isModifier_pageSteps (skip limit : Option UInt64) :
    ∀ s ∈ pageSteps skip limit, s.IsModifier := by
  fun_cases pageSteps skip limit with
  | case1 s l => exact forall_mem_singleton.2 (.range s _)
  | case2 s => exact forall_mem_singleton.2 (.skip s)
  | case3 l => exact forall_mem_singleton.2 (.limit l)
  | case4 => exact forall_mem_nil _

lemma Modifies.isModifier (h : Modifies draft p items t draft') : ∀ s ∈ t, s.IsModifier := by
  obtain ⟨-, hpage⟩ := h
  obtain ⟨skip, limit, -, rfl⟩ := (delivers_paging p).result _ hpage
  refine forall_mem_append.2 ⟨forall_mem_append.2 ⟨?_, ?_⟩, isModifier_pageSteps skip limit⟩
  · split
    · exact forall_mem_singleton.2 .dedup
    · exact forall_mem_nil _
  · split
    · exact forall_mem_nil _
    · exact forall_mem_singleton.2 (.order _)

end Projecting

/-! ## Queries -/

/-- The steps end in maps that are filled as the columns say, and in an order and a page of them. -/
structure HandsBack (columns : List Column) (steps : Traversal) : Prop where
  distinct : (columns.map (·.name)).Nodup
  projection : ∃ before entries modifiers, steps = before ++ [.project entries] ++ modifiers ∧
    (∀ s ∈ modifiers, s.IsModifier) ∧ List.Forall₂ Column.FilledBy columns entries

lemma Projecting.Returns.handsBack {columns : List Column}
    (h : Returns draft p columns t draft') (hmarked : ∀ entry ∈ draft.scope.paths, entry.2.Marked) :
    HandsBack columns t := by
  obtain @⟨items, _, modifiers, _, _, -, hitems, hrows, hmods⟩ := h
  obtain ⟨before, entries, rfl, hfill⟩ := hrows.fill hmarked
  have hnames : (items.map (Item.resultColumn draft.scope)).map (·.name) = items.map (·.name) :=
    map_map
  exact ⟨hnames ▸ hitems.distinct, before, entries, modifiers, rfl, hmods.isModifier,
    forall₂_map_left_iff.2 hfill⟩

lemma Clause.Lowers.columns_eq_nil {clause : Clause} {columns : List Column}
    (h : clause.Lowers draft columns t draft') (hreturn : clause.isReturn = false) :
    columns = [] := by
  cases h with
  | «return» => cases hreturn
  | _ => rfl

/-- A query that ends in RETURN hands back what RETURN says. -/
lemma lowerClauses_handsBack {V F : Set Label} {clauses : List Clause} {root : Traversal}
    {statement : Statement} (h : Continues .any V F root draft)
    (hpaths : ∀ clause ∈ clauses, ∀ path ∈ clause.pathNames, .named path ∈ V)
    (hlast : (clauses.getLast?.map Clause.isReturn).getD false = true)
    (hrun : lowerClauses root clauses draft = .ok (statement, draft')) :
    ∃ before steps, statement.traversal = before ++ steps ∧ HandsBack statement.columns steps := by
  have hall : LowersAll root draft clauses statement draft' :=
    (deliversFrom_lowerClauses root clauses).result _ hrun
  clear hrun
  induction hall with
  | nil => cases hlast
  | @cons _ steps _ _ _ clause rest columns _ hend hfirst hothers ih =>
    obtain ⟨hclause, hrest⟩ := forall_mem_cons.1 hpaths
    have hstarted := h.start clause
    cases rest with
    | nil =>
      cases hothers
      cases hfirst with
      | «return» hret => exact ⟨_, steps, rfl, by simpa using hret.handsBack hstarted.holds.marked⟩
      | _ => cases hlast
    | cons next others =>
      have hreturn : clause.isReturn = false := Bool.eq_false_iff.2 fun hreturn => by
        simpa using hend hreturn
      obtain rfl := hfirst.columns_eq_nil hreturn
      have hsteps :=
        (hfirst.continues hstarted.holds (fun path hpath => .inl (hclause path hpath))
        clause.within_any).1
      exact ih (hsteps.append hstarted.formed) hrest (by simpa using hlast)

lemma project_notMem_phase (buckets : Buckets) (entries : List (Label × Traversal)) :
    .project entries ∉ Deleting.phase buckets true := by
  obtain ⟨plain, detached⟩ := buckets
  cases plain <;> cases detached <;> simp [Deleting.phase, Deleting.check, Deleting.removal]

/-- The columns of a query that ends in RETURN have different names.  The last map that its program
makes has one entry for each of them, in their order and with the tag that the kind of the column
promises, and only steps that order the rows, choose among them or delete come after it. -/
theorem Query.statement_handsBack {q : Query} {s : Statement} (h : q.statement = .ok s)
    (hreturns : q.returns = true) :
    (s.columns.map (·.name)).Nodup ∧ ∃ before entries modifiers closing,
      s.traversal = before ++ [.project entries] ++ modifiers ++ closing ∧
      List.Forall₂ Column.FilledBy s.columns entries ∧
      (∀ step ∈ modifiers, step.IsModifier) ∧
      (closing = [] ∨ ∃ buckets, closing = Deleting.phase buckets true) ∧
      ∀ others, .project others ∉ modifiers ++ closing := by
  obtain ⟨statement, draft, hrun, hcols, htrav⟩ := exists_run h
  obtain ⟨before, steps, hsteps, hdist, before', entries, modifiers, rfl, hmods, hfilled⟩ :=
    lowerClauses_handsBack (continues_empty _ q.pathLabels ∅) q.mem_pathLabels hreturns hrun
  have hclosing : closing draft.buckets q.returns = [] ∨
      ∃ buckets, closing draft.buckets q.returns = Deleting.phase buckets true := by
    rw [hreturns, closing]
    split
    · exact .inr ⟨draft.buckets, rfl⟩
    · exact .inl rfl
  rw [hcols, htrav, hsteps]
  refine ⟨hdist, before ++ before', entries, modifiers, _, by simp only [List.append_assoc],
    hfilled, hmods, hclosing, fun others hmem => ?_⟩
  rcases List.mem_append.1 hmem with hmem | hmem
  · cases hmods _ hmem
  · rcases hclosing with hnone | ⟨buckets, hphase⟩
    · simp [hnone] at hmem
    · exact project_notMem_phase buckets others (hphase ▸ hmem)

/-- `MATCH p = (a)-[r:KNOWS]->(b) DELETE r RETURN DISTINCT p, b AS friend, r, id(a) LIMIT 5`. -/
def Query.parting : Query where
  clauses := [
    .match false
    [⟨some "p", ⟨some "a", [], []⟩, [⟨⟨some "r", ["KNOWS"], .out, [], none⟩, ⟨some "b", [], []⟩⟩]⟩]
    none, .delete false [.var "r"],
    .return ⟨true, false,
      [⟨.var "p", none⟩, ⟨.var "b", some "friend"⟩, ⟨.var "r", none⟩,
      ⟨.call "id" false [.var "a"], none⟩], [], none, some (.literal (.int 5)), none⟩]

/-- Columns of all kinds, in front of a page and of deletions. -/
theorem Query.statement_handsBack_parting :
    ∃ s, Query.parting.statement = .ok s ∧ Query.parting.returns = true ∧
    s.columns = [⟨"p", .path⟩, ⟨"friend", .node⟩, ⟨"r", .relationship⟩, ⟨"id(a)", .id⟩] ∧
      ∃ before entries modifiers closing, s.traversal = before ++ [.project entries] ++ modifiers ++
      closing ∧ List.Forall₂ Column.FilledBy s.columns entries := by
  obtain ⟨s, hok, hcols⟩ : ∃ s, Query.parting.statement = .ok s ∧
      s.columns = [⟨"p", .path⟩, ⟨"friend", .node⟩, ⟨"r", .relationship⟩, ⟨"id(a)", .id⟩] := by
      decide +kernel
  have hret : Query.parting.returns = true := by decide +kernel
  obtain ⟨-, before, entries, modifiers, closing, htrav, hfilled, -⟩ :=
    Query.statement_handsBack hok hret
  exact ⟨s, hok, hret, hcols, before, entries, modifiers, closing, htrav, hfilled⟩

end CypherGremlin
