import CypherGremlin.Proofs.Statement.Adding.OfQuery
import CypherGremlin.Proofs.Statement.Columns

/-!
# What sort keys read

The keys of ORDER BY are computed after the projection, on maps with an entry for each column.
There the selection of a variable gives the entry of that name if there is one.  A key that is a
column is read as the entry of that column; any other key is lowered like an expression of the row,
and its traversal may begin with the selection of a variable that is also the name of a column.

* `Expr.subject?` is the variable that the traversal of a value selects at its own level, and
  `Expr.Lowers.selectsOnly` says that it selects no other.
* `Projecting.SortsBy` says what a sort key reads.
* `Query.statement_sortsColumns` takes the order of a query that ends in RETURN apart into such
  keys.
-/

namespace CypherGremlin

variable {e : Expr} {t : Traversal} {v name : String} {p : Projection} {distinct : Bool} {s : Step}

open List Traversal

/-! ## The subject of an expression -/

/-- The variable whose value an expression is computed from, step by step: the base of its
properties, the argument of its functions.  A path is not read as one value, and what stands inside
a list, a map or a test is computed apart. -/
def Expr.subject? (scope : Scope) : Expr → Option String
  | .var v => if (Expr.var v).isPath scope then none else some v
  | .property base _ => base.subject? scope
  | .call name _ [arg] => if Function.ofName name = .coalesce then none else arg.subject? scope
  | _ => none

/-- At its own level the traversal selects the given variable, if any, and no other. -/
def Traversal.SelectsOnly (v? : Option String) (t : Traversal) : Prop :=
  ∀ v, .select [.named v] ∈ t ↔ v? = some v

namespace Traversal.SelectsOnly

variable {v? : Option String}

lemma step (h : ∀ v, s ≠ .select [.named v]) : SelectsOnly none [s] := fun v =>
  ⟨fun hmem => absurd (mem_singleton.1 hmem).symm (h v), by simp⟩

lemma snoc (ht : t.SelectsOnly v?) (h : ∀ v, s ≠ .select [.named v]) :
    SelectsOnly v? (t ++ [s]) := by
  intro v
  rw [mem_append, ← ht v, mem_singleton]
  exact or_iff_left fun heq => h v heq.symm

lemma constant (v : Value) : SelectsOnly none [.constant v] := step (by simp)

lemma unlessNull (ht : t.SelectsOnly v?) (body : Traversal) :
    SelectsOnly v? (t ++ [.unlessNull body]) :=
  ht.snoc (by simp [Step.unlessNull])

lemma folded (branches : List Traversal) : SelectsOnly none [.union branches, .fold] :=
  snoc (step (by simp)) (by simp)

lemma ofTest (test : Traversal) : SelectsOnly none ((Goal.value .raw).ofTest test) := step (by simp)

lemma readKind (shape : PathShape) (kind : ElementKind) :
    SelectsOnly none (shape.readKind .raw kind) := by
  have hread (branches : List Traversal) : SelectsOnly none
      (if branches.isEmpty then [.constant (.list [])] else [.union branches, .fold]) := by
    split
    · exact constant _
    · exact folded branches
  exact hread _

end Traversal.SelectsOnly

variable {scope : Scope}

lemma Scope.HoldsPath.subject?_eq_none {shape : PathShape} (h : scope.HoldsPath v shape) :
    (Expr.var v).subject? scope = none := by
  obtain ⟨binding, hbind, hkind⟩ := h.bound
  simp [Expr.subject?, Expr.isPath, hbind, hkind]

lemma IsRange.selectsOnly (h : IsRange t) : t.SelectsOnly none := by
  cases h with
  | integers => exact .constant _
  | invalid => exact (SelectsOnly.constant _).snoc (by simp)

lemma Scope.Recalls.selectsOnly (h : scope.Recalls v .raw t) :
    t.SelectsOnly ((Expr.var v).subject? scope) := by
  cases h with
  | label _ hbound hkind =>
    have hsubject : (Expr.var v).subject? scope = some v := by
      simp [Expr.subject?, Expr.isPath, hbound, hkind]
    intro w
    rw [hsubject, mem_singleton, Option.some.injEq]
    exact ⟨fun h => by simp_all, fun h => by rw [h]⟩
  | path _ hpath => exact hpath.subject?_eq_none ▸ .folded _

lemma Expr.subject?_call {arg : Expr} (h : Function.ofName name ≠ .coalesce) :
    (Expr.call name distinct [arg]).subject? scope = arg.subject? scope := by
  rw [Expr.subject?, if_neg h]

/-- Nor is there one in the first value that is not null, or in literals. -/
lemma Expr.subject?_call_eq_none {args : List Expr}
    (h : Function.ofName name = .coalesce ∨ ∀ e ∈ args, ∃ l, e = .literal l) :
    (Expr.call name distinct args).subject? scope = none := by
  rw [Expr.subject?.eq_def]
  split
  case h_3 name _ arg heq =>
    obtain ⟨rfl, rfl, rfl⟩ := Expr.call.inj heq
    rcases h with h | h
    · exact if_pos h
    · obtain ⟨l, rfl⟩ := h arg mem_cons_self
      simp [Expr.subject?]
  all_goals simp_all

/-- At its own level the traversal of a value selects the subject of the expression and no other
variable. -/
lemma Expr.Lowers.selectsOnly {goal : Goal} (h : e.Lowers scope goal t)
    (hgoal : goal = .value .raw) : t.SelectsOnly (e.subject? scope) := by
  induction h with
  | always | never | direct => cases hgoal
  | literal | parameter | constants | emptyMap =>
    subst hgoal
    exact .constant _
  | var _ hread =>
    subst hgoal
    exact hread.selectsOnly
  | property _ hstep _ ih =>
    subst hgoal
    obtain ⟨-, isMap, rfl⟩ := (scope.delivers_propertyStep _ _).result _ hstep
    rw [Expr.subject?]
    exact (ih rfl).unlessNull _
  | list =>
    subst hgoal
    exact .folded _
  | map =>
    subst hgoal
    exact .step (by simp)
  | coalesce _ hname =>
    subst hgoal
    exact subject?_call_eq_none (.inl hname) ▸ .step (by simp)
  | range _ _ hlits hrange =>
    subst hgoal
    exact subject?_call_eq_none (.inr hlits) ▸ hrange.selectsOnly
  | pathPart _ _ hname hpath =>
    subst hgoal
    rw [subject?_call (by rcases hname with hname | hname <;> simp [hname]), hpath.subject?_eq_none]
    exact .readKind _ _
  | pathLength _ hname hpath =>
    subst hgoal
    rw [subject?_call (by simp [hname]), hpath.subject?_eq_none]
    exact .constant _
  | existence _ hname _ _ _ ih =>
    subst hgoal
    rw [subject?_call (by simp [hname]), Expr.subject?]
    exact (ih rfl).unlessNull _
  | function _ hname _ _ ih =>
    subst hgoal
    rw [subject?_call (by simp_all)]
    exact (ih rfl).unlessNull _
  | _ =>
    subst hgoal
    exact .ofTest _

namespace Projecting

/-! ## Sort keys -/

/-- The sort key is the column: it has the same expression, or it is the name of the column. -/
def IsColumn (e : Expr) (column : Item Expr) : Prop :=
  column.expr.same e = true ∨ e = .var column.name

lemma isColumn_iff {column : Item Expr} :
    (column.expr.same e || match e with
      | .var name => name == column.name
      | _ => false) = true ↔ IsColumn e column := by
  rw [IsColumn, Bool.or_eq_true]
  cases e <;> simp

/-- What a sort key reads on the maps with the given columns: the entry of a column if it is one,
and else its subject, at its own level and in the test for null that stands before it. -/
structure SortsBy (scope : Scope) (columns : List (Item Expr)) (e : Expr) (key : Traversal) :
    Prop where
  column : (∃ column ∈ columns, IsColumn e column) →
    ∃ column ∈ columns, IsColumn e column ∧ key = [.selectKey (.named column.name)]
  subject : ∀ t ∈ [nullRank key, key], ∀ v,
    .select [.named v] ∈ t ↔ (∀ column ∈ columns, ¬ IsColumn e column) ∧ e.subject? scope = some v

lemma select_mem_nullRank {key : Traversal} :
    .select [.named v] ∈ nullRank key ↔ .select [.named v] ∈ key := by
  simp [nullRank]

variable {draft draft' : Draft} {columns : List (Item Expr)}

lemma OrdersBy.sortsBy (h : OrdersBy draft columns e t draft') :
    SortsBy draft.scope columns e t := by
  cases h with
  | @column column hcol =>
    have hmem := mem_of_find?_eq_some hcol
    have hfound := find?_some (show columns.find? _ = some column from hcol)
    have his := isColumn_iff.1 hfound
    refine ⟨fun _ => ⟨column, hmem, his, rfl⟩, fun t ht v => ?_⟩
    have hno : .select [.named v] ∉ t := by
      obtain rfl | rfl := by simpa using ht
      · simp [nullRank]
      · simp
    exact iff_of_false hno fun h => h.1 column hmem his
  | value hnone _ hval =>
    have hnot : ∀ column ∈ columns, ¬ IsColumn e column := fun column hmem his =>
      find?_eq_none.1 hnone column hmem (isColumn_iff.2 his)
    have hcol : ¬ ∃ column ∈ columns, IsColumn e column := by
      rintro ⟨column, hmem, his⟩
      exact hnot column hmem his
    refine ⟨fun h => absurd h hcol, fun t' ht v => ?_⟩
    have hsel : .select [.named v] ∈ t' ↔ .select [.named v] ∈ t := by
      obtain rfl | rfl := by simpa using ht
      · exact select_mem_nullRank
      · exact Iff.rfl
    rw [hsel, hval.lowers.selectsOnly rfl v]
    exact (and_iff_right hnot).symm

/-- The keys of an order: each stands after its null rank, in the same order. -/
def ranked (keys : List (Traversal × SortOrder)) : List (Traversal × SortOrder) :=
  keys.flatMap fun key => [(nullRank key.1, key.2), key]

def sortOrder (sort : SortItem) : SortOrder := if sort.descending then .desc else .asc

/-- Each key is what the item of the order at its place asks for. -/
def Sorts (scope : Scope) (columns : List (Item Expr)) (sorts : List SortItem)
    (keys : List (Traversal × SortOrder)) : Prop :=
  List.Forall₂ (fun sort key => SortsBy scope columns sort.expr key.1 ∧ key.2 = sortOrder sort)
    sorts keys

lemma Orders.sorts {sorts : List SortItem} {all : List (Traversal × SortOrder)}
    (h : Orders columns draft sorts all draft') (hscope : draft.scope = scope) :
    ∃ keys, all = ranked keys ∧ Sorts scope columns sorts keys := by
  induction h with
  | nil => exact ⟨[], rfl, .nil⟩
  | @cons _ _ _ sort _ key _ hkey _ ih =>
    obtain ⟨keys, rfl, hkeys⟩ := ih (hkey.counts.scope.trans hscope)
    exact ⟨(key, sortOrder sort) :: keys, rfl, .cons ⟨hscope ▸ hkey.sortsBy, rfl⟩ hkeys⟩

/-- The traversal does not sort at its own level. -/
def Unsorted (t : Traversal) : Prop := ∀ keys, .order keys ∉ t

lemma unsorted_pageSteps (skip limit : Option UInt64) : Unsorted (pageSteps skip limit) := by
  intro keys
  fun_cases pageSteps skip limit <;> simp

lemma Modifies.sorts (h : Modifies draft p columns t draft') (hscope : draft.scope = scope)
    (hsort : p.orderBy ≠ []) : ∃ keys page,
      t = (if p.distinct then [.dedup] else []) ++ [.order (ranked keys)] ++ page ∧
      Sorts scope columns p.orderBy keys ∧ Unsorted page := by
  obtain ⟨horder, hpage⟩ := h
  obtain ⟨keys, rfl, hkeys⟩ := horder.sorts hscope
  obtain ⟨skip, limit, -, rfl⟩ := (delivers_paging p).result _ hpage
  have hne : (ranked keys).isEmpty = false := by
    obtain ⟨sort, rest, hsorts⟩ := exists_cons_of_ne_nil hsort
    rw [hsorts] at hkeys
    cases hkeys
    rfl
  exact ⟨keys, _, by simp [hne], hkeys, unsorted_pageSteps skip limit⟩

/-! ## Rows -/

/-- The entries of a map have the names of the columns. -/
def IsNamedFor (columns : List (Item Expr)) (entries : List (Label × Traversal)) : Prop :=
  List.Forall₂ (fun column entry => entry.1 = .named column.name) columns entries

lemma Entries.isNamedFor {mode : Mode} {entries : List (Label × Traversal)}
    (h : Entries mode draft columns entries draft') : IsNamedFor columns entries := by
  induction h with
  | nil => exact .nil
  | cons _ _ ih => exact .cons rfl ih

lemma Makes.isNamedFor (h : Makes .result draft columns t draft') : ∃ before entries,
    t = before ++ [.project entries] ∧ IsNamedFor columns entries := by
  have hnames {inputs : List (Item Label)} (h : List.Forall₂ SameColumn columns inputs)
      (f : Item Label → Traversal) :
      IsNamedFor columns (inputs.map fun input => (.named input.name, f input)) :=
    forall₂_map_right_iff.2 (h.imp fun _ _ h => congrArg Label.named h.name)
  cases h with
  | perRow _ hvals => exact ⟨[], _, rfl, hvals.isNamedFor⟩
  | overall _ hinputs => exact ⟨_, _, rfl, hnames hinputs.sameColumn _⟩
  | perGroup _ hinputs => exact ⟨[_, _], _, rfl, hnames hinputs.sameColumn _⟩

end Projecting

/-- The traversal makes maps with an entry for each column and sorts them, and does not sort again.
-/
def SortsColumns (scope : Scope) (p : Projection) (columns : List (Item Expr))
    (t : Traversal) : Prop :=
  ∃ before entries keys after,
    t = before ++ [.project entries] ++ (if p.distinct then [.dedup] else []) ++
    [.order (Projecting.ranked keys)] ++ after ∧
    Projecting.IsNamedFor columns entries ∧ Projecting.Sorts scope columns p.orderBy keys ∧
    Projecting.Unsorted after

lemma sortsColumns_returnSteps {draft : Draft} (hsort : p.orderBy ≠ []) :
    ∀ r draft', returnSteps p draft = .ok (r, draft') → ∃ columns, Projecting.items draft.scope p =
      .ok columns ∧ SortsColumns draft.scope p columns r.2 := by
  rintro ⟨_, _⟩ draft' hrun
  obtain @⟨columns, _, _, _, _, hcols, -, hrows, hmods⟩ :=
    (deliversFrom_returnSteps p).result _ hrun
  obtain ⟨before, entries, rfl, hnames⟩ := hrows.isNamedFor
  obtain ⟨keys, page, rfl, hkeys, hpage⟩ := hmods.sorts hrows.counts.scope hsort
  exact ⟨columns, hcols, before, entries, keys, page, by simp, hnames, hkeys, hpage⟩

lemma unsorted_closing (buckets : Buckets) (returns : Bool) :
    Projecting.Unsorted (closing buckets returns) := by
  intro keys
  obtain ⟨plain, detached⟩ := buckets
  cases plain <;> cases detached <;> cases returns <;>
    simp [closing, Deleting.phase, Deleting.check, Deleting.removal]

/-- The program of a query that ends in RETURN with an order makes maps with an entry for each
column, and sorts them by two keys for each item of the order.  A key that is a column reads the
entry of that column and selects no variable.  Any other key selects its subject, also if a column
has the same name, and no other variable. -/
theorem Query.statement_sortsColumns {q : Query} {s : Statement} {before : List Clause}
    {p : Projection} (h : q.statement = .ok s) (hclauses : q.clauses = before ++ [.return p])
    (hsort : p.orderBy ≠ []) :
    ∃ root draft columns, Drafted before root draft ∧ Projecting.items draft.scope p = .ok columns ∧
      SortsColumns draft.scope p columns s.traversal := by
  obtain ⟨root, draft, hdrafted, htrav⟩ := Query.exists_drafted h
  rw [hclauses] at hdrafted
  obtain ⟨root₀, row, draft₀, _, steps, hbefore, hlow, rfl⟩ := hdrafted.last
  obtain ⟨columns, hcols, first, entries, keys, page, rfl, hnames, hkeys, hpage⟩ :=
    sortsColumns_returnSteps hsort _ _ hlow
  refine ⟨root₀, draft₀, columns, hbefore, hcols, root₀ ++ row ++ first, entries, keys,
    page ++ closing draft.buckets q.returns, by simp only [htrav, List.append_assoc], hnames, hkeys,
    fun others => ?_⟩
  rw [List.mem_append, not_or]
  exact ⟨hpage others, unsorted_closing _ _ others⟩

/-- `DISTINCT n.name AS name ORDER BY name, n.age DESC LIMIT 3`. -/
def Projection.eldest : Projection where
  distinct := true
  items := [⟨.property (.var "n") "name", some "name"⟩]
  orderBy := [⟨.var "name", false⟩, ⟨.property (.var "n") "age", true⟩]
  limit := some (.literal (.int 3))

/-- `MATCH (n) RETURN DISTINCT n.name AS name ORDER BY name, n.age DESC LIMIT 3`. -/
def Query.eldest : Query where
  clauses := [.match false [⟨none, ⟨some "n", [], []⟩, []⟩] none, .return Projection.eldest]

/-- One key is the name of a column, the other is none. -/
theorem Query.statement_sortsColumns_eldest : ∃ s, Query.eldest.statement = .ok s ∧
    ∃ before entries keys after, s.traversal = before ++ [.project entries] ++ [.dedup] ++
      [.order (Projecting.ranked keys)] ++ after ∧ keys.length = 2 := by
  obtain ⟨s, hok⟩ : ∃ s, Query.eldest.statement = .ok s := by decide +kernel
  have hclauses : Query.eldest.clauses = Query.eldest.clauses.take 1 ++
      [.return Projection.eldest] := rfl
  obtain ⟨_, _, _, -, -, before, entries, keys, after, htrav, -, hkeys, -⟩ :=
    Query.statement_sortsColumns hok hclauses (by simp [Projection.eldest])
  exact ⟨s, hok, before, entries, keys, after, htrav, hkeys.length_eq.symm⟩

/-- `MATCH (n) RETURN n ORDER BY n.name`. -/
def Query.byName : Query where
  clauses := [.match false [⟨none, ⟨some "n", [], []⟩, []⟩] none, .return
    { items := [⟨.var "n", none⟩], orderBy := [⟨.property (.var "n") "name", false⟩] }]

/-- The key of the order selects `n`, which is a column: it reads the property of the map that is
handed back in place of the node, and that stops the engine on any graph with a node. -/
theorem Query.sortKey_selects_column_byName : ∃ s id graph, Query.byName.statement = .ok s ∧
    s.traversal = [.V, .as (.named "n"),
      .project [(.named "n", [.select [.named "n"], .unlessNull [.nodeTag]])],
      .order (Projecting.ranked
        [([.select [.named "n"], .unlessNull [.coalesce [[.values ["name"]], Traversal.null]]],
        .asc)])] ∧
    Graph.empty.addVertex? "Person" = some (id, graph) ∧
    ∃ obj, s.traversal.execute (Env.standard []) graph = .error (.notElement obj) := by
  have hstmt : Query.byName.statement = .ok ⟨[.V, .as (.named "n"),
      .project [(.named "n", [.select [.named "n"], .unlessNull [.nodeTag]])],
      .order (Projecting.ranked
        [([.select [.named "n"], .unlessNull [.coalesce [[.values ["name"]], Traversal.null]]],
        .asc)])],
      [⟨"n", .node⟩]⟩ := by
    with_unfolding_all rfl
  refine ⟨_, _, _, hstmt, rfl, rfl, ?_⟩
  with_unfolding_all exact ⟨_, rfl⟩

end CypherGremlin
