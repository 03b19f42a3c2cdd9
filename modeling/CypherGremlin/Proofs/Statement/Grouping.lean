import CypherGremlin.Proofs.Engine.Bridge
import CypherGremlin.Proofs.Engine.Observation
import CypherGremlin.Statement.Projecting

/-!
# Groups of rows

What a projection with aggregates stands for, said without a traversal.  Rows with equal values of
the columns that are no aggregates make a group (`Projecting.groups`).  A column holds one object
for each group (`Projecting.column`): the value of the key in the first row, tagged if it is handed
back, or the aggregate of the values that are not null.  All columns of all groups are the
`Projecting.table`.

Equality is `Obj.same` throughout, by which not-a-number differs from itself; so `groupsBy` puts the
first row of a group there in any case and only asks the others.
-/

namespace CypherGremlin

open List Traversal

/-! ## Equal items -/

/-- The items that differ from a given one. -/
def differing {ρ : Type} (same : ρ → ρ → Bool) (row : ρ) (rows : List ρ) : List ρ :=
  rows.filter fun other => !same row other

/-- Items in groups of equal ones, each group as its first item and the others. -/
def groupsBy {ρ : Type} (same : ρ → ρ → Bool) : List ρ → List (ρ × List ρ)
  | [] => []
  | row :: rest => (row, rest.filter (same row)) :: groupsBy same (differing same row rest)
termination_by rows => rows.length
decreasing_by exact Nat.lt_succ_of_le (List.length_filter_le _ _)

lemma groupsBy_map {ρ σ : Type} (same : σ → σ → Bool) (f : ρ → σ) (rows : List ρ) :
    groupsBy same (rows.map f) = (groupsBy (fun row other => same (f row) (f other)) rows).map
      fun group => (f group.1, group.2.map f) := by
  induction rows using groupsBy.induct (fun row other => same (f row) (f other)) with
  | case1 => simp [groupsBy]
  | case2 row rest ih =>
    have hdiffering : differing same (f row) (rest.map f) =
        (differing (fun row other => same (f row) (f other)) row rest).map f := filter_map
    rw [map_cons, groupsBy, groupsBy, map_cons, hdiffering, ih, filter_map]
    rfl

lemma mem_of_mem_groupsBy {ρ : Type} {same : ρ → ρ → Bool} {rows : List ρ} {group : ρ × List ρ}
    (h : group ∈ groupsBy same rows) : ∀ row ∈ group.1 :: group.2, row ∈ rows := by
  induction rows using groupsBy.induct same with
  | case1 => simp [groupsBy] at h
  | case2 first rest ih =>
    rw [groupsBy] at h
    rcases mem_cons.1 h with rfl | h
    · exact forall_mem_cons.2 ⟨mem_cons_self,
        fun row hrow => mem_cons_of_mem _ (mem_filter.1 hrow).1⟩
    · exact fun row hrow => mem_cons_of_mem _ (mem_filter.1 (ih h row hrow)).1

/-- Objects without those that are the same as one before. -/
def firstsOf (objs : List Obj) : List Obj := (groupsBy Obj.same objs).map Prod.fst

/-- The object is the null of Cypher. -/
def Obj.isNull : Obj → Bool
  | .string s => s == Token.null.encode
  | _ => false

/-- The reduction of some values, or a default if there are none. -/
def Reduction.orElse (r : Reduction) (default : Obj) : List Obj → Except Halt Obj
  | [] => .ok default
  | first :: rest => r.reduce first rest

def Aggregate.of : Aggregate → List Obj → Except Halt Obj
  | .count, values => .ok (.ofNat values.length)
  | .collect, values => .ok (.list values)
  | .sum, values => Reduction.sum.orElse (.int 0) values
  | .avg, values => Reduction.mean.orElse .cypherNull values
  | .min, values => Reduction.min.orElse .cypherNull values
  | .max, values => Reduction.max.orElse .cypherNull values

/-! ## Columns -/

/-- The tag of a value that is handed back in a column. -/
def ColumnKind.tagged (g : Graph) (kind : ColumnKind) (v : Obj) : Except Halt Obj :=
  match kind with
  | .node => do return .map [(.string Token.element.encode, ← g.valueMap true v)]
  | .relationship => do
    let content ← g.valueMap true v
    let edge ← g.edge "valueMap" v
    return .map [(.string Token.relationship.encode, content),
      (.string Token.inV.encode, .int edge.target), (.string Token.outV.encode, .int edge.source)]
  | .id => .ok (.map [(.string Token.id.encode, v)])
  | .path | .value => .ok v

/-- The expression whose value a column takes from each row, and what the value is for. -/
def Item.input? (mode : Mode) (item : Item Expr) : Option (Expr × Mode) :=
  match item.role with
  | .key => some (item.expr, .raw)
  | .countAll => none
  | .aggregate f _ argument => some (argument, if f = .collect then mode else .raw)

/-- From the row, any traversal of the expression gives the one value, and changes nothing. -/
def Expr.HasValue (env : Env) (w : World) (scope : Scope) (mode : Mode) (row : Traverser) (e : Expr)
    (v : Obj) : Prop :=
  ∀ n a n', e.lower scope (.value mode) n = .ok (a, n') →
    ∃ t, Bytecode.run env a.bytecode [row] w = .ok ([t], w) ∧ t.obj = v

lemma Expr.HasValue.returnsFirst {env : Env} {w : World} {scope : Scope} {mode : Mode}
    {row : Traverser} {e : Expr} {v : Obj} (h : e.HasValue env w scope mode row v) {n n' : Nat}
    {a : Traversal} (ha : e.lower scope (.value mode) n = .ok (a, n')) :
    ReturnsFirst w (run env a [row]) v := by
  obtain ⟨t, hrun, hobj⟩ := h n a n' ha
  rw [Bytecode.run_bytecode] at hrun
  exact ⟨t, [], hrun, hobj⟩

namespace Projecting

/-- From each row, what the columns take from it has the value. -/
def Valued (env : Env) (w : World) (scope : Scope) (mode : Mode) (items : List (Item Expr))
    (input : List Traverser) (value : Item Expr → Traverser → Obj) : Prop :=
  ∀ item ∈ items, ∀ i ∈ item.input? mode, ∀ row ∈ input, i.1.HasValue env w scope i.2 row
    (value item row)

end Projecting

/-! ## The groups of the engine -/

namespace Machine

/-- The first group takes its members, and what is left goes to the other groups. -/
lemma foldl_addMember (key : Obj) (members : List Traverser) (found : List (Obj × List Traverser))
    (keyed : List (Obj × Traverser)) :
    keyed.foldl (fun found entry => addMember entry.1 entry.2 found) ((key, members) :: found) =
      (key, members ++ (keyed.filter fun entry => key.same entry.1).map Prod.snd) ::
        (keyed.filter fun entry => !key.same entry.1).foldl
        (fun found entry => addMember entry.1 entry.2 found) found := by
  induction keyed generalizing members found with
  | nil => simp
  | cons entry rest ih =>
    by_cases h : key.same entry.1 = true
    · simp [addMember, h, ih]
    · simp [addMember, h, ih]

lemma groups_eq (keyed : List (Obj × Traverser)) : groups keyed =
    (groupsBy (fun entry other => entry.1.same other.1) keyed).map fun group =>
      (group.1.1, group.1.2 :: group.2.map Prod.snd) := by
  induction keyed using groupsBy.induct fun (entry other : Obj × Traverser) =>
    entry.1.same other.1 with
  | case1 => simp [groups, groupsBy]
  | case2 entry rest ih =>
    rw [groupsBy, map_cons, ← ih, groups, foldl_cons, addMember, foldl_addMember]
    rfl

lemma distinct_eq (seen : List Obj) (ts : List Traverser) : distinct seen ts =
    (groupsBy (fun t other => t.obj.same other.obj)
      (ts.filter fun t => !seen.any (·.same t.obj))).map Prod.fst := by
  induction ts generalizing seen with
  | nil => simp [distinct, groupsBy]
  | cons t rest ih =>
    by_cases h : seen.any (·.same t.obj) = true
    · rw [distinct, if_pos h, filter_cons_of_neg (by simpa using h), ih]
    · rw [distinct, if_neg h, filter_cons_of_pos (by simpa using h), groupsBy, map_cons, ih,
        differing]
      simp only [any_cons, Bool.not_or, filter_filter]

end Machine

lemma Returns.group {w : World} {key gathered : Transform} {ts : List Traverser}
    {k : Traverser → Obj} {content : List Traverser → Obj}
    (hkey : ∀ t ∈ ts, ReturnsFirst w (key [t]) (k t))
    (hgathered : ∀ members, (∀ t ∈ members, t ∈ ts) →
      ReturnsFirst w (gathered members) (content members)) :
    Returns w (Machine.group key gathered ts)
      [.fresh (.map ((groupsBy (fun t other => (k t).same (k other)) ts).map fun group =>
        (k group.1, content (group.1 :: group.2))))] := by
  have hkeyed :
    Returns w (ts.mapM fun t => do
      return ((← Machine.first key t).getD .null, t)) (ts.map fun t => (k t, t)) :=
    .mapM fun t ht => (hkey t ht).first.map fun found => (found.getD .null, t)
  have hgroups : Machine.groups (ts.map fun t => (k t, t)) =
      (groupsBy (fun t other => (k t).same (k other)) ts).map fun group =>
      (k group.1, group.1 :: group.2) := by
    rw [Machine.groups_eq, groupsBy_map, map_map]
    refine map_congr_left fun group _ => ?_
    simp [Function.comp_def]
  have hentries : Returns w ((Machine.groups (ts.map fun t => (k t, t))).mapM fun entry => do
      return (entry.1, ((← gathered entry.2).head?.map Traverser.obj).getD (.list [])))
      ((groupsBy (fun t other => (k t).same (k other)) ts).map fun group => (k group.1,
      content (group.1 :: group.2))) := by
    rw [hgroups, mapM_map]
    refine .mapM fun group hgroup => ?_
    obtain ⟨o, rest, hout, hobj⟩ := hgathered (group.1 :: group.2) (mem_of_mem_groupsBy hgroup)
    rw [← hobj]
    exact hout.map fun (out : List Traverser) =>
      (k group.1, (out.head?.map Traverser.obj).getD (.list []))
  exact hkeyed.bind (hentries.map fun entries => [Traverser.fresh (.map entries)])

namespace Projecting

variable (value : Item Expr → Traverser → Obj)

/-- Two rows have the same values of the keys. -/
def sameKeys (items : List (Item Expr)) (row other : Traverser) : Bool :=
  (items.filter (!·.isAggregate)).all fun item => (value item row).same (value item other)

/-- The groups of rows.  Without keys all rows are one group, even if there are none. -/
def groups (items : List (Item Expr)) (input : List Traverser) : List (List Traverser) :=
  if items.all (·.isAggregate) then [input]
  else (groupsBy (sameKeys value items) input).map fun group => group.1 :: group.2

/-- The values that an aggregate is about. -/
def counted (distinct : Bool) (values : List Obj) : List Obj :=
  let present := values.filter (!·.isNull)
  if distinct then firstsOf present else present

def column (g : Graph) (scope : Scope) (mode : Mode) (group : List Traverser) (item : Item Expr) :
    Except Halt Obj :=
  match item.role, group with
  | .key, [] => .error (.noValue item.name)
  | .key, row :: _ =>
    if mode = .raw || (value item row).isNull then .ok (value item row)
    else (item.expr.columnKind scope).tagged g (value item row)
  | .countAll, rows => .ok (.ofNat rows.length)
  | .aggregate f distinct _, rows => f.of (counted distinct (rows.map (value item)))

/-- What the columns hold for the groups. -/
def table (g : Graph) (scope : Scope) (mode : Mode) (items : List (Item Expr))
    (input : List Traverser) : Except Halt (List (List Obj)) :=
  (groups value items input).mapM fun group => items.mapM (column value g scope mode group)

end Projecting

end CypherGremlin
