import CypherGremlin.Proofs.Statement.Lowers.Projecting
import CypherGremlin.Proofs.Statement.Operand

/-!
# Where nulls stand in an order

Null is a text to an engine, and where a text stands among other values is up to the engine.  So
every sort key stands behind its null rank, which is one for null and zero for all else: rows are
compared by their keys only if both are null or neither is.

* `EngineOrder cmp` is all that is asked of the order of an engine, and nothing of it where null
  meets another value.
* `rowOrder cmp sorts` is the order that the items ask for: null comes after everything else, in the
  direction of the item, and equals itself.
* `Projection.order_placesNulls` says that comparing by the keys of the program is comparing in this
  order.
-/

namespace CypherGremlin

variable {env : Env} {w : World} {cmp : Obj → Obj → Ordering} {columns : List (Item Expr)}
  {draft draft' : Draft}

open List Traversal

/-! ## Orders of rows -/

def Obj.nullRank (o : Obj) : Obj := .int (if o.looselyEqual .cypherNull then 1 else 0)

/-- The order of an engine: null equals itself, and null ranks are ordered as numbers. -/
structure EngineOrder (cmp : Obj → Obj → Ordering) : Prop where
  null : cmp .cypherNull .cypherNull = .eq
  rank : ∀ a b : Bool, cmp (.int (if a then 1 else 0)) (.int (if b then 1 else 0)) = compare a b

/-- The order of objects in the given direction. -/
def directed (descending : Bool) (order : Ordering) : Ordering :=
  if descending then order.swap else order

/-- The order of two lists of sort keys, each with the direction in which it counts. -/
def keyOrderBy (cmp : Obj → Obj → Ordering) : List (Obj × Bool) → List (Obj × Bool) → Ordering
  | (x, descending) :: xs, (y, _) :: ys =>
    (directed descending (cmp x y)).then (keyOrderBy cmp xs ys)
  | _, _ => .eq

/-- Null comes after everything else and equals itself. -/
def nullsLast (cmp : Obj → Obj → Ordering) (a b : Obj) : Ordering :=
  match a.looselyEqual .cypherNull, b.looselyEqual .cypherNull with
  | true, true => .eq
  | true, false => .gt
  | false, true => .lt
  | false, false => cmp a b

/-- The order of two rows with the given values of the sort items: the first item decides that tells
them apart. -/
def rowOrder (cmp : Obj → Obj → Ordering) : List SortItem → List Obj → List Obj → Ordering
  | sort :: sorts, a :: as, b :: bs =>
    (directed sort.descending (nullsLast cmp a b)).then (rowOrder cmp sorts as bs)
  | _, _, _ => .eq

lemma keyOrderBy_sortOrder : ∀ xs ys, keyOrderBy Obj.sortOrder xs ys = Machine.keyOrder xs ys := by
  intro xs
  induction xs with
  | nil => exact fun _ => rfl
  | cons x xs ih =>
    intro ys
    cases ys with
    | nil => rfl
    | cons y ys =>
      rw [keyOrderBy, ih]
      rfl

lemma engineOrder_sortOrder : EngineOrder Obj.sortOrder where
  null := by simp [Obj.sortOrder, Obj.cypherNull]
  rank := by decide

lemma directed_nullRank (h : EngineOrder cmp) (descending : Bool) (a b : Obj) :
    (directed descending (cmp a.nullRank b.nullRank)).then (directed descending (cmp a b)) =
      directed descending (nullsLast cmp a b) := by
  rw [Obj.nullRank, Obj.nullRank, h.rank, nullsLast]
  cases ha : a.looselyEqual .cypherNull <;> cases hb : b.looselyEqual .cypherNull
  · cases descending <;> rfl
  · cases descending <;> rfl
  · cases descending <;> rfl
  · rw [Obj.looselyEqual_cypherNull.1 ha, Obj.looselyEqual_cypherNull.1 hb, h.null]
    cases descending <;> rfl

lemma rowOrder_congr {cmp' : Obj → Obj → Ordering}
    (h : ∀ a b, a ≠ .cypherNull → b ≠ .cypherNull → cmp' a b = cmp a b) (sorts : List SortItem)
    (as bs : List Obj) : rowOrder cmp' sorts as bs = rowOrder cmp sorts as bs := by
  have hnulls (a b : Obj) : nullsLast cmp' a b = nullsLast cmp a b := by
    rw [nullsLast, nullsLast]
    cases ha : a.looselyEqual .cypherNull <;> cases hb : b.looselyEqual .cypherNull <;> try rfl
    exact h a b (fun heq => by simp [Obj.looselyEqual_cypherNull.2 heq] at ha)
      fun heq => by simp [Obj.looselyEqual_cypherNull.2 heq] at hb
  fun_induction rowOrder cmp sorts as bs with
  | case1 sort sorts a as b bs ih => rw [rowOrder, hnulls, ih]
  | case2 => exact rowOrder.eq_2 _ _ _ _ ‹_›

/-! ## Values of sort keys -/

def sortValues (env : Env) (keys : List (Traversal × SortOrder)) (t : Traverser) :
    Run (List (Obj × Bool)) :=
  (runKeys env keys).mapM fun key => do return (← Machine.value "order" key.1 t, key.2)

def HasValues (env : Env) (w : World) (keys : List Traversal) (t : Traverser)
    (values : List Obj) : Prop :=
  List.Forall₂ (fun key o => ReturnsFirst w (run env key [t]) o) keys values

lemma Returns.nullRanks (ts : List Traverser) : Returns w
    ((Step.choose (.predicate (.eq .null)) [.constant (.int 1)] [.constant (.int 0)]).run env ts)
    (ts.map fun t => t.carry t.obj.nullRank) := by
  rw [map_eq_flatMap, Step.run]
  nth_rewrite 1 [← map_id ts]
  refine .each fun t _ => ?_
  have hcond : Returns w ((Condition.predicate (.eq .null)).run env t)
      (t.obj.looselyEqual .cypherNull) :=
    .result (holds_isNull env t.obj)
  have hconst (i : Int64) : Returns w (Machine.branch (run env [.constant (.int i)]) t)
      [t.carry (.int i)] := by
    have hrun : Returns w (run env [.constant (.int i)] [t]) [t.carry (.int i)] :=
      .cons (.constant rfl) .nil
    exact hrun.branch
  refine hcond.bind ?_
  cases hnull : t.obj.looselyEqual .cypherNull
  · simpa [Obj.nullRank, hnull] using hconst 0
  · simpa [Obj.nullRank, hnull] using hconst 1

lemma ReturnsFirst.nullRank {key : Traversal} {ts : List Traverser} {o : Obj}
    (h : ReturnsFirst w (run env key ts) o) :
    ReturnsFirst w (run env (Projecting.nullRank key) ts) o.nullRank := by
  obtain ⟨t, rest, hkey, rfl⟩ := h
  exact ⟨_, _, hkey.append (.cons (.nullRanks (t :: rest)) .nil), rfl⟩

/-- The keys of the items, each behind its null rank and in the direction of its item. -/
def rankedKeys (sorts : List SortItem) (keys : List Traversal) : List (Traversal × SortOrder) :=
  (sorts.zip keys).flatMap fun (sort, key) =>
    let order : SortOrder := if sort.descending then .desc else .asc
    [(Projecting.nullRank key, order), (key, order)]

/-- The values of the items, each behind its null rank. -/
def rankedValues (sorts : List SortItem) (values : List Obj) : List (Obj × Bool) :=
  (sorts.zip values).flatMap fun (sort, o) => [(o.nullRank, sort.descending), (o, sort.descending)]

lemma HasValues.returns {keys : List Traversal} {values : List Obj} {t : Traverser}
    (h : HasValues env w keys t values) :
    ∀ sorts, Returns w (sortValues env (rankedKeys sorts keys) t) (rankedValues sorts values) := by
  induction h with
  | nil =>
    intro sorts
    rw [rankedKeys, rankedValues, zip_nil_right, zip_nil_right]
    exact .pure []
  | @cons key o _ _ hkey _ ih =>
    intro sorts
    cases sorts with
    | nil => exact .pure []
    | cons sort sorts =>
      have hdir : ((if sort.descending then SortOrder.desc else .asc) == .desc) =
          sort.descending := by
        cases sort.descending <;> rfl
      have hval {key : Traversal} {o : Obj} (h : ReturnsFirst w (run env key [t]) o)
          (descending : Bool) :
          Returns w (do return (← Machine.value "order" (run env key) t, descending))
          (o, descending) :=
        h.value.map fun o => (o, descending)
      simp only [sortValues, rankedKeys, rankedValues, zip_cons_cons, flatMap_cons, cons_append,
        nil_append, runKeys, mapM_cons, hdir]
      have hrest := (ih sorts).map ((o, sort.descending) :: ·)
      exact (hval hkey.nullRank _).bind
        (((hval hkey _).bind hrest).map ((o.nullRank, sort.descending) :: ·))

lemma keyOrderBy_rankedValues (h : EngineOrder cmp) (sorts : List SortItem) (as bs : List Obj) :
    keyOrderBy cmp (rankedValues sorts as) (rankedValues sorts bs) = rowOrder cmp sorts as bs := by
  induction sorts generalizing as bs with
  | nil => rfl
  | cons sort sorts ih =>
    rcases as with _ | ⟨a, as⟩
    · rfl
    rcases bs with _ | ⟨b, bs⟩
    · rfl
    simp only [rankedValues, zip_cons_cons, flatMap_cons, cons_append, nil_append, keyOrderBy,
      rowOrder, ← directed_nullRank h, Ordering.then_assoc]
    rw [← ih as bs]
    rfl

namespace Projecting

lemma Orders.rankedKeys {sorts : List SortItem} {all : List (Traversal × SortOrder)}
    (h : Orders columns draft sorts all draft') : ∃ keys, all = rankedKeys sorts keys ∧
      List.Forall₂ (fun sort key => ∃ draft draft', OrdersBy draft columns sort.expr key draft')
      sorts keys := by
  induction h with
  | nil => exact ⟨[], rfl, .nil⟩
  | @cons _ _ _ _ _ key _ hkey _ ih =>
    obtain ⟨keys, rfl, hkeys⟩ := ih
    exact ⟨key :: keys, rfl, .cons ⟨_, _, hkey⟩ hkeys⟩

end Projecting

/-- The program sorts rows by two keys for each item of the order.  Whatever the order of the
engine, and whatever the values of the items at two rows, the engine compares the rows by these keys
in the order that the items ask for, and how it compares null with anything else makes no
difference. -/
theorem Projection.order_placesNulls {p : Projection} {t : Traversal}
    (h : Projecting.modifiers p columns draft = .ok (t, draft')) :
    ∃ keys all page, all = rankedKeys p.orderBy keys ∧
      t = (if p.distinct then [.dedup] else []) ++ (if all.isEmpty then [] else [.order all]) ++
      page ∧
      List.Forall₂
      (fun sort key => ∃ draft draft', Projecting.OrdersBy draft columns sort.expr key draft')
      p.orderBy keys ∧ ∀ env w a b as bs, HasValues env w keys a as → HasValues env w keys b bs →
        ∃ xs ys, Returns w (sortValues env all a) xs ∧ Returns w (sortValues env all b) ys ∧
          ∀ cmp, EngineOrder cmp → keyOrderBy cmp xs ys = rowOrder cmp p.orderBy as bs ∧
            ∀ cmp', EngineOrder cmp' →
            (∀ x y, x ≠ .cypherNull → y ≠ .cypherNull → cmp' x y = cmp x y) →
              keyOrderBy cmp' xs ys = keyOrderBy cmp xs ys := by
  obtain ⟨horder, -⟩ := (Projecting.deliversFrom_modifiers p columns).result _ h
  obtain ⟨keys, rfl, hkeys⟩ := horder.rankedKeys
  refine ⟨keys, _, _, rfl, rfl, hkeys, fun env w a b as bs has hbs =>
    ⟨_, _, has.returns p.orderBy, hbs.returns p.orderBy,
      fun cmp hcmp => ⟨keyOrderBy_rankedValues hcmp _ _ _, ?_⟩⟩⟩
  intro cmp' hcmp' hagree
  rw [keyOrderBy_rankedValues hcmp', keyOrderBy_rankedValues hcmp, rowOrder_congr hagree]

/-- `ORDER BY name, age DESC`. -/
def Projection.byNameAndAge : Projection where
  orderBy := [⟨.var "name", false⟩, ⟨.var "age", true⟩]

def Traverser.aged (name age : Obj) : Traverser :=
  .fresh (.map [(.string "name", name), (.string "age", age)])

/-- A row without an age comes before one of the same name. -/
theorem Projection.order_placesNulls_byNameAndAge : ∃ t draft all xs ys,
    Projecting.modifiers .byNameAndAge (["name", "age"].map Projecting.variableItem)
    {} = .ok (t, draft) ∧
    .order all ∈ t ∧ Returns ⟨.empty, []⟩
    (sortValues (.standard []) all (.aged (.string "Ada") .cypherNull)) xs ∧
    Returns ⟨.empty, []⟩ (sortValues (.standard []) all (.aged (.string "Ada") (.int 36))) ys ∧
    Machine.keyOrder xs ys = .lt := by
  have hrun : ∃ t draft,
      Projecting.modifiers .byNameAndAge (["name", "age"].map Projecting.variableItem) {} =
      .ok (t, draft) := by
    with_unfolding_all exact ⟨_, _, rfl⟩
  have hkey {d d' : Draft} {v : String} {key : Traversal} (hv : v ∈ ["name", "age"])
      (h : Projecting.OrdersBy d (["name", "age"].map Projecting.variableItem) (.var v) key d') :
      key = [.selectKey (.named v)] := by
    obtain rfl | rfl := by simpa using hv
    all_goals
      cases h with
      | column hfound =>
        obtain rfl := Option.some.inj hfound
        rfl
      | value hmissing => cases hmissing
  obtain ⟨t, draft, hrun⟩ := hrun
  obtain ⟨keys, all, page, rfl, rfl, hkeys, hall⟩ := Projection.order_placesNulls hrun
  obtain _ | ⟨⟨_, _, hname⟩, _ | ⟨⟨_, _, hage⟩, ⟨⟩⟩⟩ := hkeys
  obtain rfl := hkey (by simp) hname
  obtain rfl := hkey (by simp) hage
  have hrow (age : Obj) : HasValues (.standard []) ⟨.empty, []⟩ [[.selectKey (.named "name")],
      [.selectKey (.named "age")]]
      (.aged (.string "Ada") age) [.string "Ada", age] :=
      .cons ⟨_, _, rfl, rfl⟩ (.cons ⟨_, _, rfl, rfl⟩ .nil)
  obtain ⟨xs, ys, hxs, hys, horder⟩ := hall (.standard []) ⟨.empty, []⟩ _ _ _ _ (hrow .cypherNull)
    (hrow (.int 36))
  refine ⟨_, _, _, xs, ys, hrun, by simp [Projection.byNameAndAge, rankedKeys], hxs, hys, ?_⟩
  rw [← keyOrderBy_sortOrder, (horder _ engineOrder_sortOrder).1]
  rfl

end CypherGremlin
