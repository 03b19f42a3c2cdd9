import CypherGremlin.Proofs.Statement.Examined
import CypherGremlin.Proofs.Statement.Names

/-!
# What lowering checks of a query

Every expression of a query that succeeds is proper where it stands: its variables are in scope
there, and it holds no aggregate, operator or function that has no traversal.  The names in scope
are read off the query alone, clause by clause (`Clause.namesAfter`).  Aggregates stand only as
whole columns, and as sort keys that equal such a column.

What is not checked: the operands of a comparison with the literal null (`Expr.Exposes` leaves them
out), and the condition that a RETURN may carry.

* `Clause.Checked names clause` says this of a clause with the given names in scope.
* `Query.checked_of_statement` says it of a query.
-/

namespace CypherGremlin

variable {e : Expr} {column : Item Expr} {ps : List Pattern} {columns : List (Item Expr)}
  {draft draft' : Draft}
  {names : List String} {p : Projection} {scope : Scope} {t : Traversal}
  {entries : List (Label × Traversal)} {clause : Clause}

open List

/-! ## Clauses -/

/-- What a column or a sort key that equals it may be: a proper expression, the number of rows, or
an aggregate of a proper expression. -/
inductive Expr.IsColumn (names : List String) : Expr → Prop
  | value {e : Expr} (h : e.IsProper names) : IsColumn names e
  | countAll : IsColumn names .countStar
  | aggregate {name : String} {distinct : Bool} {arg : Expr}
    (hname : (Aggregate.ofName? name).isSome = true)
      (h : arg.IsProper names) : IsColumn names (.call name distinct [arg])

/-- An aggregate occurs in the expression, apart from the whole expression. -/
def Expr.aggregatesInside : Expr → Bool
  | .countStar => false
  | .call name distinct args =>
    if (Aggregate.ofName? name).isSome then anyAggregates args else
      (Expr.call name distinct args).aggregates
  | e => e.aggregates

/-- What a sort key may be: the name of a column, an expression that equals a column, or a proper
expression. -/
inductive Projection.IsSortKey (names : List String) (p : Projection) : Expr → Prop
  | name {column : String} (h : column ∈ p.columnNames names) : IsSortKey names p (.var column)
  | column {e : Expr} {item : ProjectionItem} (h : item ∈ p.items) (hsame : item.expr.same e = true)
      (hcol : e.IsColumn names) : IsSortKey names p e
  | value {e : Expr} (h : e.IsProper names) : IsSortKey names p e

/-- What WITH and RETURN have in common. -/
structure Projection.Checked (names : List String) (p : Projection) : Prop where
  items : ∀ item ∈ p.items, item.expr.IsColumn names ∧ item.expr.aggregatesInside = false
  orderBy : ∀ sort ∈ p.orderBy, p.IsSortKey names sort.expr
  page : ∀ e ∈ p.skip.toList ++ p.limit.toList, e.IsProper names

/-- The elements of a pattern in the order of their creation: the first node, and for each hop its
node and then its relationship. -/
def Pattern.created (p : Pattern) : List (Option String × List (String × Expr)) :=
  (p.start.var, p.start.properties) ::
    p.hops.flatMap fun hop =>
    [(hop.node.var, hop.node.properties), (hop.rel.var, hop.rel.properties)]

/-- The properties of each element are proper where the variables of the elements before it are in
scope. -/
def IsCreatedOver (names : List String) : List (Option String × List (String × Expr)) → Prop
  | [] => True
  | (var, properties) :: rest =>
    (∀ entry ∈ properties, entry.2.IsProper names) ∧ IsCreatedOver (names ++ var.toList) rest

/-- Every expression of the clause is proper where it stands. -/
def Clause.Checked (names : List String) : Clause → Prop
  | .match _ ps condition => (∀ e ∈ ps.flatMap Pattern.values, e.IsProper names) ∧
      ∀ e ∈ condition, e.IsProper (names ++ ps.flatMap Pattern.names)
  | .unwind e _ => e.IsProper names
  | .with p => p.Checked names ∧ ∀ e ∈ p.condition, e.IsProper (p.columnNames names)
  | .return p => p.Checked names
  | .create ps => IsCreatedOver names (ps.flatMap Pattern.created)
  | .merge p => ∀ e ∈ p.values, e.IsProper names
  | .set items => ∀ item ∈ items, item.var ∈ names ∧ item.value.IsProper names
  | .remove items => ∀ item ∈ items, item.var ∈ names
  | .delete _ targets => ∀ e ∈ targets, e.IsProper names

def CheckedFrom (names : List String) : List Clause → Prop
  | [] => True
  | clause :: rest => clause.Checked names ∧ CheckedFrom (clause.namesAfter names) rest

namespace Draft

lemma Gains.varsIn {more : List String} (h : draft.Gains more draft')
    (hdraft : draft.VarsIn names) : draft'.VarsIn (names ++ more) := by
  intro v hv
  rcases (h.binds v).1 hv with hbound | hnew
  · exact mem_append_left _ (hdraft v hbound)
  · exact mem_append_right _ hnew

end Draft

/-! ## MATCH

The values in the patterns are constants, so that they are proper whatever is in scope. -/

namespace Matching

variable {isOptional : Bool} {matched : Matched}

lemma CrossesAll.isProper {path : Option String} {position : Nat} {hops : List Hop}
    {elements : List PathElement}
    (h : CrossesAll isOptional path position draft hops elements matched draft')
    (names : List String) : ∀ hop ∈ hops, (∀ entry ∈ hop.rel.properties, entry.2.IsProper names) ∧
      ∀ entry ∈ hop.node.properties, entry.2.IsProper names := by
  induction h with
  | nil => exact forall_mem_nil _
  | cons hhop _ ih =>
    obtain ⟨-, hrelTests, -, hnodeTests, -⟩ := hhop
    exact forall_mem_cons.2 ⟨⟨hrelTests.isProper names, hnodeTests.isProper names⟩, ih⟩

lemma Matches.isProper {p : Pattern} (h : Matches isOptional draft p matched draft')
    (names : List String) : ∀ e ∈ p.values, e.IsProper names := by
  rw [Pattern.forall_mem_values]
  cases h with
  | unnamed _ hstart hhops =>
    obtain ⟨htests, -⟩ := hstart
    exact ⟨htests.isProper names, hhops.isProper names⟩
  | named _ _ _ hstart hhops =>
    obtain ⟨htests, -⟩ := hstart
    exact ⟨htests.isProper names, hhops.isProper names⟩

lemma MatchesAll.isProper (h : MatchesAll isOptional draft ps matched draft')
    (names : List String) : ∀ e ∈ ps.flatMap Pattern.values, e.IsProper names := by
  induction h with
  | nil => exact forall_mem_nil _
  | cons hp _ ih =>
    rw [flatMap_cons]
    exact forall_mem_append.2 ⟨hp.isProper names, ih⟩

lemma All.checked {condition : Option Expr}
    (h : All isOptional draft ps condition t draft') (hdraft : draft.VarsIn names) :
    Clause.Checked names (.match isOptional ps condition) := by
  obtain ⟨hps, htests⟩ := h
  exact ⟨hps.isProper names, fun e he => (htests.examined (hps.gains.varsIn hdraft) e he).proper⟩

end Matching

namespace Projecting

/-! ### What the query writes -/

lemma aggregatesInside_of_aggregates (h : e.aggregates = false) : e.aggregatesInside = false := by
  cases e with
  | call name distinct args =>
    rw [Expr.aggregatesInside]
    split
    · rw [Expr.aggregates, Bool.or_eq_false_iff] at h
      exact h.2
    · exact h
  | countStar => rfl
  | _ => exact h

lemma Lists.isColumn {item : ProjectionItem} (h : Lists item column)
    (hproper : ColumnExamined names column t) :
    item.expr.IsColumn names ∧ item.expr.aggregatesInside = false := by
  obtain ⟨-, -, hexpr, hplays⟩ := h
  obtain ⟨name, e, role⟩ := column
  obtain rfl : e = item.expr := hexpr
  generalize item.expr = e at hplays hproper ⊢
  cases hplays with
  | key h => exact ⟨.value hproper.proper, aggregatesInside_of_aggregates h⟩
  | countAll => exact ⟨.countAll, rfl⟩
  | aggregate hname harg =>
    refine ⟨.aggregate (by simp [hname]) hproper.proper, ?_⟩
    simp [Expr.aggregatesInside, hname, anyAggregates, harg]

end Projecting

lemma Expr.IsColumn.of_same {a b : Expr} (ha : a.IsColumn names) (h : a.same b = true) :
    b.IsColumn names := by
  cases ha with
  | value ha => exact .value (ha.of_same h)
  | countAll => cases b <;> simp only [Expr.same, Bool.false_eq_true] at h; exact .countAll
  | aggregate hname harg =>
    cases b with
    | call name distinct args =>
      simp only [Expr.same, Bool.and_eq_true, beq_iff_eq] at h
      obtain ⟨⟨rfl, -⟩, hargs⟩ := h
      cases forall₂_of_sameExprs hargs with
      | cons hsame hrest =>
        cases hrest
        exact .aggregate hname (harg.of_same hsame)
    | _ => simp [Expr.same] at h

namespace Projecting

lemma Columns.name_mem (h : Columns scope p columns) (hscope : scope.VarsIn names) :
    ∀ column ∈ columns, column.name ∈ p.columnNames names := by
  intro column hcol
  have hname : column.name ∈ p.columnNames (Table.keys scope.vars) :=
    h.map_name ▸ mem_map_of_mem hcol
  exact p.columnNames_subset (fun v hv => hscope v (Table.has_iff.2 hv)) hname

lemma Columns.isSortKey (h : Columns scope p columns) (hscope : scope.VarsIn names)
    (hitems : ∀ item ∈ p.items, item.expr.IsColumn names) (hcol : column ∈ columns)
    (his : IsColumn e column) : p.IsSortKey names e := by
  have hname := h.name_mem hscope column hcol
  obtain ⟨-, -, listed, rfl, hlisted⟩ := h
  rcases his with hsame | rfl
  · rcases mem_append.1 hcol with hstarred | hmem
    · rw [starred] at hstarred
      split at hstarred
      · obtain ⟨v, hv, rfl⟩ := mem_map.1 hstarred
        exact .value ((Expr.Examined.var (t := []) (hscope v (Table.has_iff.2 hv))).proper.of_same
          hsame)
      · cases hstarred
    · obtain ⟨item, hitem, hlists⟩ := exists_mem_of_forall₂ hlisted column hmem
      rw [hlists.expr] at hsame
      exact .column hitem hsame ((hitems item hitem).of_same hsame)
  · exact .name hname

end Projecting

namespace Projecting

/-- Projecting checks the columns, the sort keys and the bounds of the page. -/
lemma Makes.checked {mode : Mode} {rows modifiers : Traversal} {draft₁ : Draft}
    (h : Makes mode draft columns rows draft₁) (hmods : Modifies draft₁ p columns modifiers draft')
    (hcols : Columns draft.scope p columns) (hdraft : draft.VarsIn names) : p.Checked names := by
  have hproper := h.examined hdraft
  obtain ⟨horder, hpage⟩ := hmods
  have hitems : ∀ item ∈ p.items, item.expr.IsColumn names ∧ item.expr.aggregatesInside =
      false := by
    intro item hitem
    obtain ⟨listed, hlisted, hitems⟩ := hcols.listed
    obtain ⟨column, hcol, hlists⟩ := exists_mem_of_forall₂ hitems.flip item hitem
    exact hlists.isColumn (hproper column (hlisted ▸ mem_append_right _ hcol))
  refine ⟨hitems, fun sort hsort => ?_, fun e he => ?_⟩
  · rcases horder.examined (h.counts.varsIn hdraft) sort hsort with ⟨column, hcol, his⟩ | ⟨_,
      -, hval⟩
    · exact hcols.isSortKey hdraft (fun item hitem => (hitems item hitem).1) hcol his
    · exact .value hval.proper
  · obtain ⟨skip, limit, ⟨hskip, hlimit, -⟩, -⟩ := (delivers_paging p).result _ hpage
    simp only [hskip, hlimit, mem_append, Option.mem_toList, Option.map_eq_some_iff] at he
    obtain ⟨n, -, rfl⟩ | ⟨n, -, rfl⟩ := he <;> exact (Expr.Examined.literal (t := []) _).proper

lemma Carries.checked (h : Carries draft p t draft') (hdraft : draft.VarsIn names) :
    p.Checked names ∧ ∀ e ∈ p.condition, e.IsProper (p.columnNames names) := by
  obtain ⟨-, hcols, hrows, hmods, htests⟩ := h
  refine ⟨hrows.checked hmods hcols hdraft,
    fun e he => (htests.examined (fun v hv => ?_) e he).proper⟩
  rw [Scope.binds, Table.has_iff, keys_scopeAfter] at hv
  obtain ⟨column, hcol, rfl⟩ := mem_map.1 hv
  exact hcols.name_mem hdraft column hcol

end Projecting

namespace Creating

-- Whatever is created after the hops is created over the names that they have brought into scope.
lemma Hops.isCreatedOver {hops : List Hop} {previous : Label}
    {rest : List (Option String × List (String × Expr))} (h : Hops previous draft hops t draft')
    (hrest : ∀ {names}, draft'.VarsIn names → IsCreatedOver names rest) :
    ∀ {names}, draft.VarsIn names → IsCreatedOver names
      (hops.flatMap (fun hop => [(hop.node.var, hop.node.properties),
      (hop.rel.var, hop.rel.properties)]) ++ rest) := by
  induction h with
  | nil => exact hrest
  | cons hnode hrel _ ih =>
    intro names hdraft
    have hdraft₁ := hnode.gains.varsIn hdraft
    have hdraft₂ := hrel.gains.varsIn hdraft₁
    obtain ⟨-, -, -, hstores, -⟩ := hrel
    exact ⟨fun entry hentry => (hnode.examined hdraft entry hentry).proper,
      fun entry hentry => (hstores.examined hdraft₁ entry hentry).proper, ih hrest hdraft₂⟩

lemma CreatesAll.isCreatedOver (h : CreatesAll draft ps t draft') :
    ∀ {names}, draft.VarsIn names → IsCreatedOver names (ps.flatMap Pattern.created) := by
  induction h with
  | nil => exact fun _ => trivial
  | cons hp _ ih =>
    intro names hdraft
    obtain ⟨-, hstart, hhops⟩ := hp
    exact ⟨fun entry hentry => (hstart.examined hdraft entry hentry).proper,
      hhops.isCreatedOver ih (hstart.gains.varsIn hdraft)⟩

end Creating

namespace Merging

lemma Constants.isProper {properties : List (String × Expr)} {values : List (String × Value)}
    (h : Constants properties values) (names : List String) :
    ∀ entry ∈ properties, entry.2.IsProper names := by
  intro entry hentry
  obtain ⟨_, -, -, -, hv⟩ := exists_mem_of_forall₂ h.flip entry hentry
  exact (hv.examined names []).proper

lemma Merges.isProper {p : Pattern} (h : Merges draft p t draft')
    (names : List String) : ∀ e ∈ p.values, e.IsProper names := by
  rw [Pattern.forall_mem_values]
  cases h with
  | node hhops _ _ _ hvals => exact ⟨hvals.isProper names, by simp [hhops]⟩
  | relationship hhops hstart hend _ _ _ hvals =>
    obtain ⟨-, -, -, hstart⟩ := hstart
    obtain ⟨-, -, -, hend⟩ := hend
    refine ⟨by simp [hstart], ?_⟩
    rw [hhops]
    exact forall_mem_singleton.2 ⟨hvals.isProper names, by simp [hend]⟩

end Merging

namespace Updating

lemma Removes.checked {items : List PropertyRef} (h : Removes scope items t)
    (hscope : scope.VarsIn names) : ∀ item ∈ items, item.var ∈ names := by
  intro item hitem
  obtain ⟨_, -, -, _, ⟨hbound⟩, -⟩ := exists_mem_of_forall₂ h.flip item hitem
  exact hscope.binding? hbound

end Updating

lemma Deleting.MarksAll.checked {detach : Bool} {es : List Expr}
    {marks : List Mark} (h : MarksAll scope detach es marks) (hscope : scope.VarsIn names) :
    ∀ e ∈ es, e.IsProper names := by
  induction h with
  | nil => exact forall_mem_nil _
  | cons hmarks _ ih =>
    refine forall_mem_cons.2 ⟨?_, ih⟩
    cases hmarks with
    | element hbound | path hbound | dynamic hbound =>
      exact (Expr.Examined.var (t := []) (hscope.binding? hbound)).proper

/-! ## Queries -/

theorem Clause.Lowers.checked {columns : List Column}
    (h : clause.Lowers draft columns t draft') (hdraft : draft.VarsIn names) :
    clause.Checked names := by
  cases h with
  | «match» h | «with» h | remove h | delete h => exact h.checked hdraft
  | set h => exact fun item hitem => (h.examined hdraft item hitem).imp_right (·.proper)
  | optionalMatch h =>
    cases h with
    | checks hall | binds hall => exact hall.checked hdraft
  | unwind h =>
    obtain ⟨-, hval⟩ := h
    exact (hval.examined hdraft).proper
  | «return» h =>
    obtain ⟨-, hcols, hrows, hmods⟩ := h
    exact hrows.checked hmods hcols hdraft
  | create h => exact h.isCreatedOver hdraft
  | merge h => exact h.isProper names

lemma Clause.Lowers.varsIn {columns : List Column}
    (h : clause.Lowers draft columns t draft') (hdraft : draft.VarsIn names) :
    draft'.VarsIn (clause.namesAfter names) := by
  intro v hv
  have hkeys : Table.keys draft.scope.vars ⊆ names := fun w hw => hdraft w (Table.has_iff.2 hw)
  exact clause.namesAfter_subset hkeys ((h.knows draft.knows_keys v).1 hv)

theorem leads_checkedFrom {root : Traversal} {clauses : List Clause} (hdraft : draft.VarsIn names)
    (statement : Statement) (draft' : Draft)
    (hrun : lowerClauses root clauses draft = .ok (statement, draft')) :
    CheckedFrom names clauses := by
  have hall : LowersAll root draft clauses statement draft' :=
    (deliversFrom_lowerClauses root clauses).result _ hrun
  clear hrun
  induction hall generalizing names with
  | nil => exact trivial
  | cons _ hclause _ ih => exact ⟨hclause.checked hdraft, ih (hclause.varsIn hdraft)⟩

/-- Every expression of a query that succeeds is proper where it stands: WHERE, WITH, RETURN, ORDER
BY, UNWIND, SET, the properties that CREATE gives, and what else a clause holds, except for the
condition of a RETURN. -/
theorem Query.checked_of_statement {q : Query} {s : Statement} (h : q.statement = .ok s) :
    CheckedFrom [] q.clauses := by
  obtain ⟨statement, draft, hrun, -⟩ := Query.exists_run h
  have hempty : Draft.VarsIn [] {} := fun v hv => Table.mem_keys_of_has hv
  exact leads_checkedFrom hempty statement draft hrun

/-- `MATCH (n)-->(m) WHERE n.age > 3 WITH n.name AS name, count(m) AS friends ORDER BY count(m) DESC
WHERE friends > 1 UNWIND [name, 1] AS x CREATE (a {tag: x})-[r:OF {from: a.tag}]->(b) SET b.size =
friends RETURN a, x ORDER BY x`. -/
def Query.popular : Query where
  clauses := [
    .match false [⟨none, ⟨some "n", [], []⟩, [⟨⟨none, [], .out, [], none⟩, ⟨some "m", [], []⟩⟩]⟩]
      (some (.compare .gt (.property (.var "n") "age") (.literal (.int 3)))),
    .with {
    items := [⟨.property (.var "n") "name", some "name"⟩,
      ⟨.call "count" false [.var "m"], some "friends"⟩],
            orderBy := [⟨.call "count" false [.var "m"], true⟩],
            condition := some (.compare .gt (.var "friends") (.literal (.int 1))) },
    .unwind (.list [.var "name", .literal (.int 1)]) "x",
    .create [⟨none, ⟨some "a", [], [("tag", .var "x")]⟩,
      [⟨⟨some "r", ["OF"], .out, [("from", .property (.var "a") "tag")], none⟩,
      ⟨some "b", [], []⟩⟩]⟩],
    .set [⟨"b", "size", .var "friends"⟩],
    .return { items := [⟨.var "a", none⟩, ⟨.var "x", none⟩], orderBy := [⟨.var "x", false⟩] }]

/-- An aggregate that is a column and a sort key, and properties that refer to what was just
created. -/
theorem Query.checked_of_statement_popular : ∃ s, Query.popular.statement = .ok s ∧
    CheckedFrom [] Query.popular.clauses := by
  obtain ⟨s, hok⟩ : ∃ s, Query.popular.statement = .ok s := by decide +kernel
  exact ⟨s, hok, Query.checked_of_statement hok⟩

/-- The condition `nobody.name = null`. -/
def Expr.ofNobody : Expr := .compare .eq (.property (.var "nobody") "name") (.literal .null)

/-- `MATCH (n) WHERE nobody.name = null RETURN n`. -/
def Query.ofNobody : Query where
  clauses := [.match false [⟨none, ⟨some "n", [], []⟩, []⟩] (some Expr.ofNobody),
    .return { items := [⟨.var "n", none⟩] }]

/-- A variable that nothing binds, in a condition that compares it with null, is not refused. -/
theorem Query.accepts_unbound_ofNobody : ∃ s base, Query.ofNobody.statement = .ok s ∧
    base ∈ Expr.ofNobody.parts ∧ Expr.var "nobody" ∈ base.parts ∧
    ∀ clause ∈ Query.ofNobody.clauses, "nobody" ∉ clause.namesAfter [] := by
  obtain ⟨s, hs⟩ : ∃ s, Query.ofNobody.statement = .ok s := by decide +kernel
  refine ⟨s, _, hs, List.mem_cons_self, List.mem_cons_self, ?_⟩
  simp [Query.ofNobody, Clause.namesAfter, Pattern.names, Pattern.nodeVars, Pattern.relVars]

end CypherGremlin
