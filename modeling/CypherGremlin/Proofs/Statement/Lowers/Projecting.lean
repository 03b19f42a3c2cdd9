import CypherGremlin.Proofs.Statement.Lowers.Matching
import CypherGremlin.Statement.Projecting

/-!
# What projections are lowered to

The columns of a projection are those that the query writes, after the variables in scope if it has
a star.  They are computed for each row or for each group of rows; then come the order and the page.

* `Projecting.Lists` is for a column that the query writes, and `Projecting.delivers_items` for all
  of them.
* `Projecting.Makes` is for the steps that make a map of each row or of each group, and
  `Projecting.Modifies` for those that sort the maps and drop some of them.
* `Projecting.Returns`, `Projecting.Carries` and `Projecting.Unwinds` are for RETURN, WITH and
  UNWIND.
-/

namespace CypherGremlin

variable {entries : List (Label × Traversal)}

open Drafting

namespace Projecting

/-! ## Columns -/

/-- The expression plays the role as a column. -/
inductive Plays : Expr → Role Expr → Prop
  | key {e : Expr} (h : e.aggregates = false) : Plays e .key
  | countAll : Plays .countStar .countAll
  | aggregate {name : String} {f : Aggregate} {distinct : Bool} {arg : Expr}
    (hname : Aggregate.ofName? name = some f)
      (harg : arg.aggregates = false) : Plays (.call name distinct [arg])
      (.aggregate f distinct arg)

lemma delivers_role (e : Expr) : Delivers (role e) (Plays e) := by
  have hplain : Delivers (role.plain e) (Plays e) :=
    .ite (fun _ => .error rfl) fun h => .ok (.key (Bool.eq_false_iff.2 h))
  rw [role.eq_def]
  split
  · exact .ok .countAll
  · split
    · rename_i hname
      exact .ite (fun _ => .error rfl) fun harg => .ok (.aggregate hname (Bool.eq_false_iff.2 harg))
    · exact .error rfl
    · exact hplain
  · exact hplain

/-- The column is the one that the query writes. -/
structure Lists (item : ProjectionItem) (column : Item Expr) : Prop where
  name : column.name = item.columnName
  plain : Plain item.columnName
  expr : column.expr = item.expr
  plays : Plays item.expr column.role

/-- The columns of variables, if the projection has a star. -/
def starred (scope : Scope) (p : Projection) : List (Item Expr) :=
  if p.star then (Table.keys scope.vars).map variableItem else []

/-- The columns are those of the variables, if the projection has a star, and then those that it
lists. -/
structure Columns (scope : Scope) (p : Projection) (columns : List (Item Expr)) : Prop where
  some : columns ≠ []
  distinct : (columns.map (·.name)).Nodup
  listed : ∃ listed, columns = starred scope p ++ listed ∧ List.Forall₂ Lists p.items listed

lemma nodup_of_repeated? {seen names : List String} (h : repeated? seen names = none) :
    names.Nodup ∧ ∀ name ∈ names, name ∉ seen := by
  induction names generalizing seen with
  | nil => simp
  | cons name rest ih =>
    rw [repeated?] at h
    split at h
    · cases h
    · rename_i hname
      obtain ⟨hnodup, hrest⟩ := ih h
      have hnot : name ∉ rest := fun hmem => hrest name hmem (by simp)
      refine ⟨List.nodup_cons.2 ⟨hnot, hnodup⟩,
        List.forall_mem_cons.2 ⟨by simpa using hname, fun other hother => ?_⟩⟩
      exact fun hseen => hrest other hother (List.mem_append_left _ hseen)

lemma delivers_items (scope : Scope) (p : Projection) :
    Delivers (items scope p) (Columns scope p) := by
  have hitem (item : ProjectionItem) : Delivers (Projecting.item item) (Lists item) :=
    (delivers_checkName _ _).bind fun _ hplain => (delivers_role item.expr).bind fun _ hplays =>
      .pure ⟨rfl, hplain, rfl, hplays⟩
  refine .ite (fun _ => .throw_bind rfl) fun _ => (Delivers.mapM fun item _ => hitem item).bind
    fun listed hlisted => ?_
  refine .ite (fun _ => .throw_bind rfl) fun hempty => ?_
  dsimp only
  split
  · exact .throw_bind rfl
  · rename_i hrepeated
    have hdist := nodup_of_repeated? (Option.eq_none_iff_forall_ne_some.2 hrepeated)
    exact .pure ⟨fun h => hempty (List.isEmpty_iff.2 h), hdist.1, listed, rfl, hlisted⟩

/-- The values of some columns, by their names. -/
inductive Entries {α : Type} (mode : Mode) : Draft → List (Item α) → List (Label × Traversal) →
    Draft → Prop
  | nil (draft : Draft) : Entries mode draft [] [] draft
  | cons {draft draft₁ draft₂ : Draft} {item : Item α} {rest : List (Item α)} {t : Traversal}
    {entries : List (Label × Traversal)} (value : draft.Computes (.value mode) item.expr t draft₁)
    (values : Entries mode draft₁ rest entries draft₂) :
    Entries mode draft (item :: rest) ((.named item.name, t) :: entries) draft₂

/-- The arguments of aggregates, under numbers. -/
inductive Inputs (mode : Mode) : Draft → List (Item Expr) → List (Item Label) →
    List (Label × Traversal) → Draft → Prop
  | nil (draft : Draft) : Inputs mode draft [] [] [] draft
  | key {draft draft' : Draft} {name : String} {e : Expr} {rest : List (Item Expr)}
    {others : List (Item Label)}
    {entries : List (Label × Traversal)} (inputs : Inputs mode draft rest others entries draft') :
    Inputs mode draft (⟨name, e, .key⟩ :: rest) (⟨name, e, .key⟩ :: others) entries draft'
  | countAll {draft draft' : Draft} {name : String} {e : Expr} {rest : List (Item Expr)}
    {others : List (Item Label)}
    {entries : List (Label × Traversal)} (inputs : Inputs mode draft rest others entries draft') :
    Inputs mode draft (⟨name, e, .countAll⟩ :: rest) (⟨name, e, .countAll⟩ :: others) entries draft'
  | aggregate {draft draft₁ draft₂ : Draft} {name : String} {e arg : Expr} {f : Aggregate}
    {distinct : Bool}
    {rest : List (Item Expr)} {others : List (Item Label)} {t : Traversal}
    {entries : List (Label × Traversal)}
    (value : Draft.Computes { draft with next := draft.next + 1 }
    (.value (if f = .collect then mode else .raw)) arg t draft₁)
    (inputs : Inputs mode draft₁ rest others entries draft₂) :
    Inputs mode draft (⟨name, e, .aggregate f distinct arg⟩ :: rest)
      (⟨name, e, .aggregate f distinct (.token (.generated draft.next.toUInt32))⟩ :: others)
      ((.token (.generated draft.next.toUInt32), t) :: entries) draft₂

/-- The steps that make the maps: of each row, of all rows together, or of each group of rows. -/
inductive Makes (mode : Mode) (draft : Draft) (columns : List (Item Expr)) :
    Traversal → Draft → Prop
  | perRow {entries : List (Label × Traversal)} {draft' : Draft}
    (plain : columns.any (·.isAggregate) = false)
    (values : Entries mode draft columns entries draft') : Makes mode draft columns
    [.project entries] draft'
  | overall {inputs : List (Item Label)} {entries : List (Label × Traversal)} {draft' : Draft}
    (aggregating : columns.any (·.isAggregate) = true)
    (gathered : Inputs mode draft columns inputs entries draft')
    (all : inputs.all (·.isAggregate) = true) : Makes mode draft columns (groupRows entries ++
      [.project (inputs.map fun input => (.named input.name, summary input.role))]) draft'
  | perGroup {inputs : List (Item Label)} {entries keys : List (Label × Traversal)}
    {draft₁ draft₂ : Draft}
    (aggregating : columns.any (·.isAggregate) = true)
    (gathered : Inputs mode draft columns inputs entries draft₁)
    (some : inputs.all (·.isAggregate) = false)
    (paths : ∀ input ∈ inputs.filter (!·.isAggregate), input.expr.columnKind draft.scope ≠ .path)
    (values : Entries .raw draft₁ (inputs.filter (!·.isAggregate)) keys draft₂) :
    Makes mode draft columns [.group [.project keys] (groupRows entries), .unfold,
      .project (inputs.map fun input => (.named input.name, groupColumn draft.scope mode input))]
      draft₂

/-- The value to sort by: a column, or an expression if nothing is aggregated. -/
inductive OrdersBy (draft : Draft) (columns : List (Item Expr)) (e : Expr) :
    Traversal → Draft → Prop
  | column {column : Item Expr} (found : sortColumn? columns e = some column) :
    OrdersBy draft columns e [.selectKey (.named column.name)] draft
  | value {t : Traversal} {draft' : Draft} (missing : sortColumn? columns e = none)
    (plain : columns.any (·.isAggregate) = false)
    (value : draft.Computes (.value .raw) e t draft') : OrdersBy draft columns e t draft'

/-- The keys to sort by, each after its null rank. -/
inductive Orders (columns : List (Item Expr)) :
    Draft → List SortItem → List (Traversal × SortOrder) → Draft → Prop
  | nil (draft : Draft) : Orders columns draft [] [] draft
  | cons {draft draft₁ draft₂ : Draft} {sort : SortItem} {rest : List SortItem} {key : Traversal}
    {keys : List (Traversal × SortOrder)} (first : OrdersBy draft columns sort.expr key draft₁)
    (others : Orders columns draft₁ rest keys draft₂) : Orders columns draft (sort :: rest)
      ((nullRank key, if sort.descending then .desc else .asc) ::
      (key, if sort.descending then .desc else .asc) :: keys) draft₂

/-- The steps of DISTINCT, ORDER BY, SKIP and LIMIT. -/
inductive Modifies (draft : Draft) (p : Projection) (columns : List (Item Expr)) :
    Traversal → Draft → Prop
  | intro {keys : List (Traversal × SortOrder)} {page : Traversal} {draft' : Draft}
    (order : Orders columns draft p.orderBy keys draft') (paged : paging p = .ok page) :
    Modifies draft p columns
      ((if p.distinct then [.dedup] else []) ++ (if keys.isEmpty then [] else [.order keys]) ++
      page) draft'

/-- RETURN hands the maps back. -/
inductive Returns (draft : Draft) (p : Projection) : List Column → Traversal → Draft → Prop
  | intro {columns : List (Item Expr)} {rows modifiers : Traversal} {draft₁ draft₂ : Draft}
    (found : items draft.scope p = .ok columns) (known : Columns draft.scope p columns)
    (made : Makes .result draft columns rows draft₁)
    (modified : Modifies draft₁ p columns modifiers draft₂) :
    Returns draft p (columns.map (Item.resultColumn draft.scope)) (rows ++ modifiers) draft₂

/-- WITH binds the columns as variables. -/
inductive Carries (draft : Draft) (p : Projection) : Traversal → Draft → Prop
  | intro {columns : List (Item Expr)} {rows modifiers tests : Traversal}
    {draft₁ draft₂ draft₃ : Draft}
    (found : items draft.scope p = .ok columns) (known : Columns draft.scope p columns)
    (made : Makes .raw draft columns rows draft₁)
    (modified : Modifies draft₁ p columns modifiers draft₂)
    (tested : Draft.Tests
    { draft₂ with scope := scopeAfter draft.scope columns, next := draft₂.next + 1 } p.condition
      tests draft₃) :
    Carries draft p (rows ++ modifiers ++ rebinding (.token (.freshId draft₂.next.toUInt32))
    (columns.map (·.name)) ++ tests) draft₃

/-- UNWIND makes a row of each item of a list. -/
inductive Unwinds (draft : Draft) (e : Expr) (name : String) : Traversal → Draft → Prop
  | intro {t : Traversal} {draft' : Draft} (plain : Plain name)
    (value : draft.Computes (.value .raw) e t draft') :
    Unwinds draft e name [.flatMap (t ++ [.notNull, .unfold]), .as (.named name)]
      { draft' with scope := draft'.scope.declare name .value true }

/-! ## Entries and numbers -/

variable {α : Type} {mode : Mode} {draft draft' : Draft} {columns : List (Item Expr)}
  {t : Traversal}

section

-- What holds of every lowered value holds of every entry.
variable {P : Traversal → Prop}
  (hP : ∀ {d d' : Draft} {mode : Mode} {e : Expr} {t : Traversal}, d.Computes (.value mode) e t
  d' → P t)

include hP

lemma Entries.forall_entries {items : List (Item α)} (h : Entries mode draft items entries draft') :
    ∀ entry ∈ entries, P entry.2 := by
  induction h with
  | nil => exact List.forall_mem_nil _
  | cons hval _ ih => exact List.forall_mem_cons.2 ⟨hP hval, ih⟩

lemma Inputs.forall_entries {inputs : List (Item Label)}
    (h : Inputs mode draft columns inputs entries draft') : ∀ entry ∈ entries, P entry.2 := by
  induction h with
  | nil => exact List.forall_mem_nil _
  | key _ ih | countAll _ ih => exact ih
  | aggregate hval _ ih => exact List.forall_mem_cons.2 ⟨hP hval, ih⟩

end

lemma Entries.counts {items : List (Item α)} (h : Entries mode draft items entries draft') :
    draft.Counts draft' := by
  induction h with
  | nil => exact .refl _
  | cons hval _ ih => exact hval.counts.trans ih

lemma Inputs.counts {inputs : List (Item Label)}
    (h : Inputs mode draft columns inputs entries draft') : draft.Counts draft' := by
  induction h with
  | nil => exact .refl _
  | key _ ih | countAll _ ih => exact ih
  | aggregate hval _ ih => exact ((Draft.Counts.succ _).trans hval.counts).trans ih

lemma Makes.counts (h : Makes mode draft columns t draft') : draft.Counts draft' := by
  cases h with
  | perRow _ hvals => exact hvals.counts
  | overall _ hinputs => exact hinputs.counts
  | perGroup _ hinputs _ _ hvals => exact hinputs.counts.trans hvals.counts

lemma OrdersBy.counts {e : Expr} (h : OrdersBy draft columns e t draft') : draft.Counts draft' := by
  cases h with
  | column => exact .refl _
  | value _ _ hval => exact hval.counts

lemma Orders.counts {sorts : List SortItem} {keys : List (Traversal × SortOrder)}
    (h : Orders columns draft sorts keys draft') : draft.Counts draft' := by
  induction h with
  | nil => exact .refl _
  | cons hkey _ ih => exact hkey.counts.trans ih

lemma Modifies.counts {p : Projection} (h : Modifies draft p columns t draft') :
    draft.Counts draft' := by
  obtain ⟨hkeys, -⟩ := h
  exact hkeys.counts

/-! ## What the computations give -/

lemma deliversFrom_inputs (mode : Mode) (columns : List (Item Expr)) :
    DeliversFrom draft (inputs mode columns) fun r draft' =>
      Inputs mode draft columns r.1 r.2 draft' := by
  induction columns generalizing draft with
  | nil => exact .pure (.nil draft)
  | cons column rest ih =>
    obtain ⟨name, e, role⟩ := column
    cases role with
    | key => exact ih.bind fun _ _ hrest => .pure (.key hrest)
    | countAll => exact ih.bind fun _ _ hrest => .pure (.countAll hrest)
    | aggregate f distinct arg =>
      exact fresh_bind ((deliversFrom_value arg _).bind fun _ _ hval => ih.bind fun _ _ hrest =>
        .pure (.aggregate hval hrest))

lemma deliversFrom_groupKeys (inputs : List (Item Label)) :
    DeliversFrom draft (groupKeys inputs) fun keys draft' =>
      (∀ input ∈ inputs.filter (!·.isAggregate), input.expr.columnKind draft.scope ≠ .path) ∧
        Entries .raw draft (inputs.filter (!·.isAggregate)) keys draft' := by
  rw [groupKeys]
  generalize inputs.filter (!·.isAggregate) = keyed
  induction keyed generalizing draft with
  | nil => exact .pure ⟨by simp, .nil draft⟩
  | cons input rest ih =>
    have hkey : DeliversFrom draft (do
        if input.expr.columnKind (← scope) =
          .path then throw (.unsupported "path as a grouping key")
        return (Label.named input.name, ← value input.expr .raw)) fun entry draft' =>
          input.expr.columnKind draft.scope ≠ .path ∧
            ∃ t, draft.Computes (.value .raw) input.expr t draft' ∧
            entry = (.named input.name, t) :=
      scope_bind (.ite (fun _ => .throw_bind rfl) fun hpath =>
        (deliversFrom_value input.expr .raw).bind fun t _ ht => .pure ⟨hpath, t, ht, rfl⟩)
    rw [List.mapM_cons]
    refine hkey.bind ?_
    rintro _ draft₁ ⟨hpath, t, ht, rfl⟩
    refine ih.bind fun keys draft₂ hkeys =>
      .pure ⟨List.forall_mem_cons.2 ⟨hpath, ?_⟩, .cons ht hkeys.2⟩
    exact ht.counts.scope ▸ hkeys.1

lemma deliversFrom_perRow (mode : Mode) (columns : List (Item Expr))
    (hplain : columns.any (·.isAggregate) = false) :
    DeliversFrom draft (perRow mode columns) (Makes mode draft columns) := by
  have hentries : ∀ {draft : Draft}, DeliversFrom draft
      (columns.mapM fun item => do return (Label.named item.name, ← value item.expr mode))
      (Entries mode draft columns) := by
    clear hplain
    induction columns with
    | nil => exact .pure (.nil _)
    | cons column rest ih =>
      intro draft
      rw [List.mapM_cons, bind_assoc]
      exact (deliversFrom_value column.expr mode).bind fun _ _ ht => ih.bind fun _ _ hrest =>
        .pure (.cons ht hrest)
  exact hentries.bind fun _ _ hvals => .pure (.perRow hplain hvals)

lemma deliversFrom_rows (mode : Mode) (columns : List (Item Expr)) :
    DeliversFrom draft (rows mode columns) (Makes mode draft columns) := by
  refine .ite (fun haggregating => ?_) fun hplain =>
    deliversFrom_perRow mode columns (Bool.eq_false_iff.2 hplain)
  refine (deliversFrom_inputs mode columns).bind ?_
  rintro ⟨inputs, entries⟩ draft₁ hinputs
  refine .ite (fun hall => .pure (.overall haggregating hinputs hall)) fun hsome => ?_
  refine (deliversFrom_groupKeys inputs).bind fun keys draft₂ hkeys => scope_bind (.pure ?_)
  have hscope : draft₂.scope = draft.scope := hkeys.2.counts.scope.trans hinputs.counts.scope
  rw [hscope]
  exact .perGroup haggregating hinputs (Bool.eq_false_iff.2 hsome)
    (hinputs.counts.scope ▸ hkeys.1) hkeys.2

lemma deliversFrom_sortKeys (columns : List (Item Expr)) (sorts : List SortItem) :
    DeliversFrom draft (sortKeys columns sorts) (Orders columns draft sorts) := by
  have hkey (draft : Draft) (e : Expr) : DeliversFrom draft (sortKey columns e)
      (OrdersBy draft columns e) := by
    rw [sortKey]
    split
    · exact .pure (.column ‹_›)
    · refine .ite (fun _ => .throw rfl) fun hplain => (deliversFrom_value e .raw).mono fun _ _ ht =>
        ?_
      exact .value ‹_› (Bool.eq_false_iff.2 hplain) ht
  induction sorts generalizing draft with
  | nil => exact .pure (.nil draft)
  | cons sort rest ih =>
    exact (hkey draft sort.expr).bind fun _ _ hkey => ih.bind fun _ _ hkeys =>
      .pure (.cons hkey hkeys)

/-- The numbers of a page are those that the query writes, and they fit into signed integers. -/
structure Paged (p : Projection) (skip limit : Option UInt64) : Prop where
  skips : p.skip = skip.map fun n => .literal (.int n.toInt64)
  limits : p.limit = limit.map fun n => .literal (.int n.toInt64)
  fits : ∀ n ∈ skip.toList ++ limit.toList, n.toInt64.toInt = n.toNat

lemma delivers_pageBound (context : String) (e : Option Expr) :
    Delivers (pageBound context e) fun bound =>
    e = bound.map (fun n => .literal (.int n.toInt64)) ∧ ∀ n ∈ bound, n.toInt64.toInt =
      n.toNat := by
  rw [pageBound.eq_def]
  split
  · exact .ok ⟨rfl, by simp⟩
  · rename_i n
    refine .ite (fun _ => .error rfl) fun hnonneg => .ok ⟨by simp, ?_⟩
    have hn : 0 ≤ n := Int64.le_iff_toInt_le.2 (Int.not_lt.1 hnonneg)
    simpa [Int64.toNat_toUInt64_of_le hn] using (Int.toNat_of_nonneg (Int.not_lt.1 hnonneg)).symm
  · exact .error rfl

lemma delivers_paging (p : Projection) :
    Delivers (paging p) fun t => ∃ skip limit, Paged p skip limit ∧ t = pageSteps skip limit :=
  (delivers_pageBound _ p.skip).bind fun skip hskip =>
    (delivers_pageBound _ p.limit).bind fun limit hlimit =>
    .pure ⟨skip, limit,
      ⟨hskip.1, hlimit.1,
        List.forall_mem_append.2 ⟨by simpa using hskip.2, by simpa using hlimit.2⟩⟩,
      rfl⟩

end Projecting

/-- The number that is written. -/
def Expr.natural? : Expr → Option Nat
  | .literal (.int n) => some n.toInt.toNat
  | _ => none

namespace Projection

variable (p : Projection)

/-- How many rows are skipped. -/
def skipped : Nat := (p.skip.bind Expr.natural?).getD 0

/-- The numbers between which the rows of the page are: how many are skipped, and how many there are
up to its end. -/
def bounds : List Nat :=
  (p.skip.bind Expr.natural?).toList ++ (p.limit.bind Expr.natural?).toList.map (p.skipped + ·)

end Projection

namespace Projecting

lemma deliversFrom_modifiers (p : Projection) (columns : List (Item Expr)) :
    DeliversFrom draft (modifiers p columns) (Modifies draft p columns) :=
  (deliversFrom_sortKeys columns p.orderBy).bind fun _ _ hkeys =>
    .lift_bind (delivers_paging p).eq fun _ hpage =>
    .pure (.intro hkeys hpage)

/-! ## Scopes -/

lemma keys_scopeAfter (scope : Scope) (columns : List (Item Expr)) :
    Table.keys (scopeAfter scope columns).vars = columns.map (·.name) := by
  simp only [scopeAfter, Table.keys, List.map_map]
  rfl

/-- A path is carried over only if no column is an aggregate. -/
lemma mem_paths_scopeAfter {scope : Scope} {columns : List (Item Expr)} {entry : String × PathShape}
    (h : entry ∈ (scopeAfter scope columns).paths) :
    columns.any (·.isAggregate) = false ∧ ∃ var, Table.get? scope.paths var = some entry.2 := by
  rw [scopeAfter] at h
  dsimp only at h
  split at h
  · cases h
  · rename_i hplain
    obtain ⟨item, -, hpath⟩ := List.mem_filterMap.1 h
    rw [carriedPath?.eq_def] at hpath
    split at hpath
    · rename_i var _
      obtain ⟨shape, hshape, rfl⟩ := Option.map_eq_some_iff.1 hpath
      exact ⟨Bool.eq_false_iff.2 hplain, var, hshape⟩
    · cases hpath

end Projecting

section

variable {draft : Draft}

lemma deliversFrom_returnSteps (p : Projection) :
    DeliversFrom draft (returnSteps p) fun r draft' =>
      Projecting.Returns draft p r.1 r.2 draft' := by
  have hitems := Projecting.delivers_items draft.scope p
  refine scope_bind (.lift_bind hitems.eq fun columns hcols => ?_)
  refine (Projecting.deliversFrom_rows .result columns).bind fun _ _ hrows => ?_
  exact (Projecting.deliversFrom_modifiers p columns).bind fun _ _ hmods =>
    .pure (.intro hcols (hitems.result _ hcols) hrows hmods)

lemma deliversFrom_withSteps (p : Projection) :
    DeliversFrom draft (withSteps p) (Projecting.Carries draft p) := by
  have hitems := Projecting.delivers_items draft.scope p
  refine scope_bind (.lift_bind hitems.eq fun columns hcols => ?_)
  refine (Projecting.deliversFrom_rows .raw columns).bind fun _ _ hrows => ?_
  refine (Projecting.deliversFrom_modifiers p columns).bind fun _ _ hmods => fresh_bind ?_
  exact modifyScope_bind ((deliversFrom_condition p.condition).bind fun _ _ htests =>
    .pure (.intro hcols (hitems.result _ hcols) hrows hmods htests))

lemma deliversFrom_unwindSteps (e : Expr) (name : String) :
    DeliversFrom draft (unwindSteps e name) (Projecting.Unwinds draft e name) :=
  .lift_bind (delivers_checkName name _) fun _ hname =>
    (deliversFrom_value e .raw).bind fun _ _ hval =>
    modifyScope_bind (.pure (.intro hname hval))

end

end CypherGremlin
