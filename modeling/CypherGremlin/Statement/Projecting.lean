import CypherGremlin.Query.Equality
import CypherGremlin.Statement.Draft

/-!
# WITH, RETURN and UNWIND

A projection makes a map of each row, with an entry for each column.  If a column is an aggregate,
the columns that are none are the keys by which rows are grouped: the arguments of the aggregates
are computed row by row into a map under numbered labels, the maps of a group are gathered, and each
aggregate is computed from its group.

WITH then binds the columns as variables; they are the new scope.  RETURN hands the maps back.
-/

namespace CypherGremlin

/-! ## SKIP and LIMIT -/

/-- The number of a SKIP or LIMIT. -/
def pageBound (context : String) : Option Expr → Except QueryFault (Option UInt64)
  | none => .ok none
  | some (.literal (.int n)) =>
    if n.toInt < 0 then .error (.invalidArgument context (toString n.toInt ++ " is negative"))
    else .ok (some n.toUInt64)
  | some e => .error (.unsupported ("non-literal " ++ context ++ " `" ++ e.text ++ "`"))

/-- The sum, or the largest number if the sum is larger. -/
def saturatingAdd (a b : UInt64) : UInt64 :=
  if a.toNat + b.toNat < UInt64.size then a + b else UInt64.ofNat (UInt64.size - 1)

/-- The step that skips some rows and keeps at most some of the rest. -/
def pageSteps (skip limit : Option UInt64) : Traversal :=
  match skip, limit with
  | some s, some l => [.range s (saturatingAdd s l)]
  | some s, none => [.skip s]
  | none, some l => [.limit l]
  | none, none => []

/-- The steps of SKIP and LIMIT. -/
def paging (p : Projection) : Except QueryFault Traversal := do
  let skip ← pageBound "SKIP" p.skip
  let limit ← pageBound "LIMIT" p.limit
  return pageSteps skip limit

/-! ## Columns -/

inductive Role (α : Type) where
  /-- A value of the row.  Rows are grouped by it if there are aggregates. -/
  | key
  /-- The number of rows. -/
  | countAll
  /-- An aggregate of the values that are not null, each perhaps counted once only. -/
  | aggregate (f : Aggregate) (distinct : Bool) (argument : α)

/-- A column of a projection. -/
structure Item (α : Type) where
  name : String
  expr : Expr
  role : Role α

def Item.isAggregate {α : Type} (item : Item α) : Bool :=
  match item.role with
  | .key => false
  | _ => true

namespace Projecting

def role (e : Expr) : Except QueryFault (Role Expr) :=
  match e with
  | .countStar => .ok .countAll
  | .call name distinct args =>
    match Aggregate.ofName? name, args with
    | some f, [arg] =>
      if arg.aggregates then .error (.unsupported ("nested aggregate `" ++ e.text ++ "`"))
      else .ok (.aggregate f distinct arg)
    | some _, _ => .error (.invalidArgument "aggregate" (name ++ "() takes exactly one argument"))
    | none, _ => plain
  | _ => plain
where
  plain : Except QueryFault (Role Expr) :=
    if e.aggregates then .error (.unsupported ("aggregate inside expression `" ++ e.text ++ "`"))
    else .ok .key

def item (column : ProjectionItem) : Except QueryFault (Item Expr) := do
  let name := column.columnName
  checkName name "column name"
  return ⟨name, column.expr, ← role column.expr⟩

def variableItem (var : String) : Item Expr := ⟨var, .var var, .key⟩

/-- The first name that occurs again later than its first place. -/
def repeated? : List String → List String → Option String
  | _, [] => none
  | seen, name :: rest => if seen.contains name then some name else repeated? (seen ++ [name]) rest

/-- The columns of a projection: the variables in scope if it has a star, then those that it lists.
Names must differ. -/
def items (scope : Scope) (p : Projection) : Except QueryFault (List (Item Expr)) := do
  if p.star && scope.vars.isEmpty then
    throw (.invalidQuery "`*` projection with no variables in scope")
  let starred := if p.star then (Table.keys scope.vars).map variableItem else []
  let listed ← p.items.mapM item
  let all := starred ++ listed
  if all.isEmpty then throw (.invalidQuery "projection has no items")
  if let some name := repeated? [] (all.map (·.name)) then
    throw (.invalidArgument "projection" ("duplicate column name '" ++ name ++ "'"))
  return all

/-! ## Aggregates -/

def orElse (t : Traversal) (v : Value) : Traversal := [.coalesce [t, [.constant v]]]

def aggregated (f : Aggregate) (values : Traversal) : Traversal :=
  match f with
  | .count => values ++ [.count .global]
  | .collect => values ++ [.fold]
  | .sum => orElse (values ++ [.sum]) (.int 0)
  | .avg => orElse (values ++ [.mean]) .null
  | .min => orElse (values ++ [.min]) .null
  | .max => orElse (values ++ [.max]) .null

/-- Computes a column from the rows of its group.  The argument of an aggregate is under a label in
each row. -/
def summary : Role Label → Traversal
  | .key => []
  | .countAll => [.count .local]
  | .aggregate f distinct input =>
    aggregated f ([.unfold, .selectKey input, .notNull] ++ if distinct then [.dedup] else [])

/-- Labels the argument of each aggregate with a number.  The result is the columns with these
labels, and the traversal for each label. -/
def inputs (mode : Mode) :
    List (Item Expr) → Drafting (List (Item Label) × List (Label × Traversal))
  | [] => return ([], [])
  | item :: rest => do
    match item.role with
    | .key =>
      let (others, entries) ← inputs mode rest
      return ({ item with role := .key } :: others, entries)
    | .countAll =>
      let (others, entries) ← inputs mode rest
      return ({ item with role := .countAll } :: others, entries)
    | .aggregate f distinct arg =>
      let label ← Drafting.fresh .generated
      let t ← Drafting.value arg (if f = .collect then mode else .raw)
      let (others, entries) ← inputs mode rest
      return ({ item with role := .aggregate f distinct label } :: others, (label, t) :: entries)

def groupRows (entries : List (Label × Traversal)) : Traversal :=
  if entries.isEmpty then [.fold] else [.project entries, .fold]

def groupKeys (items : List (Item Label)) : Drafting (List (Label × Traversal)) :=
  (items.filter (!·.isAggregate)).mapM fun item => do
    if item.expr.columnKind (← Drafting.scope) = .path then
      throw (.unsupported "path as a grouping key")
    return (.named item.name, ← Drafting.value item.expr .raw)

/-- The tag of a value by which rows were grouped, if it is handed back. -/
def keyTag (mode : Mode) (kind : ColumnKind) : Traversal :=
  match mode, kind with
  | .result, .node => [.unlessNull [ElementKind.tag .node]]
  | .result, .relationship => [.unlessNull [ElementKind.tag .relationship]]
  | .result, .id => [.unlessNull [.idTag [.identity]]]
  | _, _ => []

def groupColumn (scope : Scope) (mode : Mode) (item : Item Label) : Traversal :=
  if item.isAggregate then .selectColumn .values :: summary item.role
  else [.selectColumn .keys, .selectKey (.named item.name)] ++
    keyTag mode (item.expr.columnKind scope)

/-! ## Projections -/

def perRow (mode : Mode) (items : List (Item Expr)) : Drafting Traversal := do
  let entries ← items.mapM fun item =>
    do return (Label.named item.name, ← Drafting.value item.expr mode)
  return [.project entries]

/-- The steps that make a map of each group of rows. -/
def perGroup (mode : Mode) (items : List (Item Expr)) : Drafting Traversal := do
  let (columns, entries) ← inputs mode items
  let rows := groupRows entries
  if columns.all (·.isAggregate) then
    return rows ++ [.project (columns.map fun column => (.named column.name, summary column.role))]
  let keys ← groupKeys columns
  let scope ← Drafting.scope
  return [.group [.project keys] rows, .unfold,
    .project (columns.map fun column => (.named column.name, groupColumn scope mode column))]

/-- The steps that make the maps. -/
def rows (mode : Mode) (items : List (Item Expr)) : Drafting Traversal :=
  if items.any (·.isAggregate) then perGroup mode items else perRow mode items

/-! ## Order -/

/-- The column that a sort key refers to: one that has the same expression, or one whose name is the
key. -/
def sortColumn? (items : List (Item Expr)) (e : Expr) : Option (Item Expr) :=
  items.find? fun item => item.expr.same e || match e with
    | .var name => name == item.name
    | _ => false

def sortKey (items : List (Item Expr)) (e : Expr) : Drafting Traversal :=
  match sortColumn? items e with
  | some item => return [.selectKey (.named item.name)]
  | none =>
    if items.any (·.isAggregate) then
      throw (.unsupported ("ORDER BY `" ++ e.text ++ "` not projected by an aggregating clause"))
    else Drafting.value e .raw

def nullRank (key : Traversal) : Traversal :=
  key ++ [.choose (.predicate (.eq .null)) [.constant (.int 1)] [.constant (.int 0)]]

/-- The keys to sort by.  Each stands after its null rank: null comes last in ascending order and
first in descending order, and is never compared with anything else. -/
def sortKeys (items : List (Item Expr)) : List SortItem → Drafting (List (Traversal × SortOrder))
  | [] => return []
  | sort :: rest => do
    let key ← sortKey items sort.expr
    let order : SortOrder := if sort.descending then .desc else .asc
    return (nullRank key, order) :: (key, order) :: (← sortKeys items rest)

/-- The steps of DISTINCT, ORDER BY, SKIP and LIMIT. -/
def modifiers (p : Projection) (items : List (Item Expr)) : Drafting Traversal := do
  let distinct : Traversal := if p.distinct then [.dedup] else []
  let keys ← sortKeys items p.orderBy
  let order : Traversal := if keys.isEmpty then [] else [.order keys]
  return distinct ++ order ++ (← paging p)

/-! ## Scopes -/

/-- What is known of the variable that a column becomes.  A path that was a grouping key is no path
any more. -/
def carried (scope : Scope) (aggregating : Bool) (item : Item Expr) : String × Binding :=
  let binding := if item.isAggregate then ⟨.value, true⟩ else item.expr.carried scope
  (item.name, if aggregating && binding.kind = .path then { binding with kind := .value }
  else binding)

def carriedPath? (scope : Scope) (item : Item Expr) : Option (String × PathShape) :=
  match item.expr with
  | .var var => (Table.get? scope.paths var).map fun shape => (item.name, shape)
  | _ => none

def scopeAfter (scope : Scope) (items : List (Item Expr)) : Scope :=
  let aggregating := items.any (·.isAggregate)
  { scope with
    vars := items.map (carried scope aggregating)
    paths := if aggregating then [] else items.filterMap (carriedPath? scope) }

end Projecting

def Item.resultColumn (scope : Scope) (item : Item Expr) : Column :=
  ⟨item.name, if item.isAggregate then .value else item.expr.columnKind scope⟩

def returnSteps (p : Projection) : Drafting (List Column × Traversal) := do
  let scope ← Drafting.scope
  let items ← Projecting.items scope p
  let rows ← Projecting.rows .result items
  let modifiers ← Projecting.modifiers p items
  return (items.map (Item.resultColumn scope), rows ++ modifiers)

def withSteps (p : Projection) : Drafting Traversal := do
  let scope ← Drafting.scope
  let items ← Projecting.items scope p
  let rows ← Projecting.rows .raw items
  let modifiers ← Projecting.modifiers p items
  let row ← Drafting.fresh .freshId
  Drafting.modifyScope fun _ => Projecting.scopeAfter scope items
  let condition ← Drafting.condition p.condition
  return rows ++ modifiers ++ rebinding row (items.map (·.name)) ++ condition

def unwindSteps (e : Expr) (name : String) : Drafting Traversal := do
  checkName name "UNWIND alias"
  let list ← Drafting.value e .raw
  Drafting.modifyScope (·.declare name .value true)
  return [.flatMap (list ++ [.notNull, .unfold]), .as (.named name)]

end CypherGremlin
