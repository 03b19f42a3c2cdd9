import CypherGremlin.Proofs.Query.Truth
import CypherGremlin.Proofs.Statement.Hop

/-!
# Operands of conditions

The conditions on the properties and labels of nodes and relationships (`Expr.IsCondition`), the
rows at which they can be asked (`Scope.HeldAt`), and what the steps of an operand give there: the
value of the operand, or nothing if it is null (`Expr.IsOperand.returns`).  The predicates of the
engine let pass what compares truly (`Comparison.holds_predicate`,
`Comparison.comparesWith_labelled`, `StringTest.holds_predicate`), and what is among literals
(`Expr.lower_member_holds`).
-/

namespace CypherGremlin

variable {env : Env} {w : World} {t : Traverser} {binding : Binding} {l : Literal} {obj : Obj}
  {scope : Scope} {v : String}

open List Predicate Traversal

/-! ## Predicates -/

namespace Comparison

lemma order_eq_true_iff {op : Comparison} (a b : Obj) :
    ((if a.comparable b then some ((a.compare? b).any op.accepts) else none : Truth) == some true) =
      (a.compare? b).any op.accepts := by
  cases h : a.comparable b with
  | true => simp
  | false => simp [Obj.compare?_eq_none h]

lemma comparesWith_labelled (op : Comparison) (a b : Obj) :
    comparesWith op.labelled.operator a b = .ok (op.truth a b == some true) := by
  cases op with
  | eq | neq => simp [comparesWith, labelled, LabelComparison.operator, truth]
  | lt | lte | gt | gte =>
    simp only [truth, order_eq_true_iff]
    cases h : a.compare? b with
    | none => simp [comparesWith, labelled, LabelComparison.operator, h]
    | some o => cases o <;> simp [comparesWith, labelled, LabelComparison.operator, h, accepts]

lemma holds_predicate (op : Comparison) {v : Value} {b : Obj} (hv : v.eval env = .ok b) (a : Obj) :
    (op.predicate v).holds env a = .ok (op.truth a b == some true) := by
  have hpasses : (op.predicate v).holds env a = comparesWith op.labelled.operator a b := by
    cases op <;>
    · simp only [Predicate.holds, argument, Env.test, predicate, operands, operator,
        Value.values_singleton hv]
      rfl
  rw [hpasses, comparesWith_labelled]

end Comparison

lemma StringTest.holds_predicate (parameters : Parameters) (test : StringTest) (other : String)
    (hobj : ∀ text, obj = .string text → Plain text) :
    (custom test.predicate (some (.string other))).holds (Env.standard parameters) obj =
      .ok (test.truth other obj == some true) := by
  have hrequire : (Env.standard parameters).require test.predicate.symbol = .ok () := by
    have hmem : Registry.standard.symbols.contains test.predicate.symbol = true := by
      cases test <;> decide +kernel
    rw [Env.require, Env.standard, if_pos hmem]
  have hpasses : passes test.predicate.symbol [.string other] obj =
      .ok (obj.textTest test.check (some (.string other))) := by
    cases test <;> rfl
  have htext : obj.textTest test.check (some (.string other)) =
      (test.truth other obj == some true) := by
    cases obj with
    | string text =>
      have hplain : isReserved text = false := hobj text rfl
      simp [Obj.textTest, StringTest.truth, hplain]
    | _ => rfl
  have hcustom : beginsWith "cypher" test.predicate.symbol = true := by
    cases test <;> decide +kernel
  rw [← htext, ← hpasses, Predicate.holds, argument, Env.test, operator, if_pos hcustom, hrequire]
  rfl

/-! ## Conditions -/

/-- A literal that is neither a list nor a map. -/
def Literal.isScalar : Literal → Bool
  | .list _ | .map _ => false
  | _ => true

lemma Literal.looselyEqual_comm (h : l.isScalar = true) (b : Obj) :
    b.looselyEqual l.obj = l.obj.looselyEqual b := by
  have hequal (x y : Binary64) : x.equal y = y.equal x := by
    simp only [Binary64.equal, Bool.and_comm (!x.isNaN), Bool.and_comm x.isZero, BEq.comm]
  cases l with
  | list | map => simp [isScalar] at h
  | null | bool | int | float | string =>
    cases b <;> simp [obj, Obj.cypherNull, Obj.looselyEqual, Obj.number?, Obj.same,
      BEq.comm, hequal]

/-- The variable is known to stand for a node or a relationship. -/
def Scope.IsElement (scope : Scope) (v : String) : Prop :=
  ∃ binding, scope.binding? v = some binding ∧ (binding.kind = .node ∨ binding.kind = .relationship)

/-- A side of a comparison: a property of a node or a relationship, or a scalar. -/
inductive Expr.IsOperand (scope : Scope) : Expr → Prop where
  | property {v : String} (hv : scope.IsElement v) (key : String) : IsOperand scope
    (.property (.var v) key)
  | literal {l : Literal} (hl : l.isScalar = true) : IsOperand scope (.literal l)

/-- The conditions on the properties and labels of nodes and relationships. -/
inductive Expr.IsCondition (scope : Scope) : Expr → Prop where
  | bool (b : Bool) : IsCondition scope (.literal (.bool b))
  | null : IsCondition scope (.literal .null)
  | compare (op : Comparison) {l r : Expr} (hl : l.IsOperand scope) (hr : r.IsOperand scope) :
    IsCondition scope (.compare op l r)
  | stringMatch (test : StringTest) {v : String} (hv : scope.IsElement v) (key other : String) :
    IsCondition scope (.stringMatch test (.property (.var v) key) (.literal (.string other)))
  | isNull {v : String} (hv : scope.IsElement v) (key : String) : IsCondition scope
    (.isNull (.property (.var v) key))
  | isNotNull {v : String} (hv : scope.IsElement v) (key : String) :
    IsCondition scope (.isNotNull (.property (.var v) key))
  | hasLabels {v : String} (hv : scope.IsElement v) (labels : List String) : IsCondition scope
    (.hasLabels v labels)
  | not {e : Expr} (he : IsCondition scope e) : IsCondition scope (.not e)
  | and {l r : Expr} (hl : IsCondition scope l) (hr : IsCondition scope r) : IsCondition scope
    (.and l r)
  | or {l r : Expr} (hl : IsCondition scope l) (hr : IsCondition scope r) : IsCondition scope
    (.or l r)

/-! ## Rows -/

/-- No text of the value looks like a token: neither the value itself nor a key of it. -/
def Obj.IsPlain : Obj → Prop
  | .string s => Plain s
  | .map entries => ∀ entry ∈ entries, ∀ key, entry.1 = .string key → Plain key
  | _ => True

/-- No text of a property looks like a token. -/
def Graph.IsPlain (g : Graph) : Prop :=
  ∀ obj element, g.element? obj = some element → ∀ property ∈ element.properties, property.2.IsPlain

/-- The row holds the nodes and relationships of the scope under their names: an element of the
graph, or null where a variable may be null. -/
structure Scope.HeldAt (scope : Scope) (w : World) (row : Traverser) : Prop where
  plain : w.graph.IsPlain
  bucketed : w.Bucketed
  held : ∀ v binding, scope.binding? v = some binding → binding.kind = .node ∨
    binding.kind = .relationship → Plain v ∧ ∃ obj, row.label? v = some obj ∧
      ((w.graph.element? obj).isSome ∨ binding.nullable = true ∧ obj = .cypherNull)

/-- A name that is neither that of a bucket nor an entry of the object at hand stands for a label.
-/
lemma Traverser.find?_eq_label? (hw : w.Bucketed) (hv : ¬ IsBucketName v)
    (hobj : t.obj.get? v = none) : t.find? w.buckets v = t.label? v := by
  have hbucket : Table.get? w.buckets v = none := Table.get?_eq_none fun hmem => hv (hw v hmem)
  simp [find?, hobj, hbucket]

lemma Plain.not_isBucketName (hv : Plain v) : ¬ IsBucketName v := by
  rintro (rfl | rfl) <;> simp [Plain] at hv

lemma Obj.IsPlain.get?_token (h : obj.IsPlain) (token : Token) : obj.get? token.encode = none := by
  cases obj with
  | map entries =>
    refine findSome?_eq_none_iff.2 fun entry hentry => ?_
    obtain ⟨key, value⟩ := entry
    cases key with
    | string k =>
      refine if_neg ?_
      rintro rfl
      simpa [Plain] using h _ hentry _ rfl
    | _ => rfl
  | _ => rfl

lemma Table.map_filter_key {κ α : Type} [BEq κ] [LawfulBEq κ] {table : Table κ α}
    (hnodup : (keys table).Nodup) (key : κ) :
    (table.filter (·.1 == key)).map Prod.snd = (get? table key).toList := by
  induction table with
  | nil => rfl
  | cons entry rest ih =>
    obtain ⟨hentry, hrest⟩ := nodup_cons.1 hnodup
    by_cases hkey : entry.1 = key
    · have hnone : get? rest key = none := get?_eq_none (hkey ▸ hentry)
      have hempty : (rest.filter (·.1 == key)).map Prod.snd = [] := by rw [ih hrest, hnone]; rfl
      simpa [get?, hkey] using hempty
    · simpa [get?, hkey] using ih hrest

/-! ## Operands -/

namespace Returns

/-- The test keeps the object or drops it. -/
lemma is {p : Predicate} {b : Bool} (h : p.holds env t.obj = .ok b) :
    Returns w ((Step.is p).run env [t]) (if b then [t] else []) := by
  have hkeep : Returns w (Machine.keep (fun _ obj => p.holds env obj) ([()].map fun _ => t))
      (([()].filter fun _ => b).map fun _ => t) := .keep fun _ _ => h
  cases b <;> exact hkeep

lemma values {element : Element} (h : w.graph.element? t.obj = some element) (key : String) :
    Returns w ((Step.values [key]).run env [t])
    ((Table.get? element.properties key).toList.map t.carry) := by
  have hsel : (element.select [key]).map Prod.snd = (Table.get? element.properties key).toList := by
    rw [← Table.map_filter_key element.nodup, Element.select]
    simp [Bool.beq_eq_decide_eq]
  have hread :
    Returns w (Run.observe fun w => do return ((← w.graph.element t.obj).select [key]).map Prod.snd)
      (Table.get? element.properties key).toList := by
    refine observe ?_
    rw [Graph.element, h]
    exact congrArg Except.ok hsel
  rw [Step.run, Machine.values, Machine.emit, Machine.each_singleton]
  exact hread.map fun objs => objs.map t.carry

end Returns

lemma Obj.looselyEqual_cypherNull {a : Obj} :
    a.looselyEqual .cypherNull = true ↔ a = .cypherNull := by
  cases a <;> simp [cypherNull, looselyEqual, number?, same]

lemma Value.eval_null (env : Env) : Value.null.eval env = .ok .cypherNull := rfl

lemma holds_notNull (env : Env) (obj : Obj) :
    (neq .null).holds env obj = .ok !obj.looselyEqual .cypherNull :=
  holds_neq (Value.eval_null env) obj

lemma holds_isNull (env : Env) (obj : Obj) :
    (eq .null).holds env obj = .ok (obj.looselyEqual .cypherNull) :=
  holds_eq (Value.eval_null env) obj

namespace Returns

lemma notNull :
    Returns w (Step.notNull.run env [t]) (if t.obj.looselyEqual .cypherNull then [] else [t]) := by
  have his : Returns w (Step.notNull.run env [t]) _ := .is (holds_notNull env t.obj)
  cases h : t.obj.looselyEqual .cypherNull <;> simpa [h] using his

end Returns

lemma Graph.ne_cypherNull_of_element? {g : Graph} (h : (g.element? obj).isSome) :
    obj ≠ .cypherNull := by
  rintro rfl
  simp [element?, Obj.cypherNull] at h

namespace Scope.HeldAt

lemma of_label? {t' : Traverser} (h : scope.HeldAt w t)
    (hlabel : ∀ v, Plain v → t'.label? v = t.label? v) : scope.HeldAt w t' where
  plain := h.plain
  bucketed := h.bucketed
  held v binding hv hkind := by
    obtain ⟨hplain, hobj⟩ := h.held v binding hv hkind
    rw [hlabel v hplain]
    exact ⟨hplain, hobj⟩

/-- What a variable holds, under its name. -/
lemma returns_select (h : scope.HeldAt w t) (hv : scope.binding? v = some binding)
    (hkind : binding.kind = .node ∨ binding.kind = .relationship) (hobj : t.obj.get? v = none)
    (env : Env) : ∃ obj, Returns w ((Step.select [.named v]).run env [t]) [t.carry obj] ∧
      t.element? w.graph v = w.graph.element? obj ∧
      ((w.graph.element? obj).isSome ∨ binding.nullable = true ∧ obj = .cypherNull) := by
  obtain ⟨hplain, obj, hlabel, hcase⟩ := h.held v binding hv hkind
  refine ⟨obj, .selectOne ?_, by simp [Traverser.element?, hlabel], hcase⟩
  exact (t.find?_eq_label? h.bucketed hplain.not_isBucketName hobj).trans hlabel

/-- A property that a row can read looks like no token. -/
lemma plain_operandValue (h : scope.HeldAt w t) {key : String}
    (hobj : (Expr.property (.var v) key).operandValue w.graph t = some obj) : obj.IsPlain := by
  obtain ⟨element, helem, hprop⟩ := Option.bind_eq_some_iff.1 hobj
  obtain ⟨handle, -, helem⟩ := Option.bind_eq_some_iff.1 helem
  exact h.plain handle element helem _ (Table.mem_of_get? hprop)

/-- The element that a variable holds, if it is not null. -/
lemma returns_bindingSelect (h : scope.HeldAt w t) (hv : scope.binding? v = some binding)
    (hkind : binding.kind = .node ∨ binding.kind = .relationship) (hobj : t.obj.get? v = none)
    (env : Env) : (∃ obj element, Returns w (run env (binding.select v) [t]) [t.carry obj] ∧
        w.graph.element? obj = some element ∧ t.element? w.graph v = some element) ∨
      Returns w (run env (binding.select v) [t]) [] ∧ t.element? w.graph v = none := by
  obtain ⟨obj, hsel, helem, hcase⟩ := h.returns_select hv hkind hobj env
  rw [helem, Binding.select]
  rcases hcase with hsome | ⟨hnullable, rfl⟩
  · obtain ⟨element, hfound⟩ := Option.isSome_iff_exists.1 hsome
    have hne : obj.looselyEqual .cypherNull = false :=
      Bool.eq_false_iff.2 (mt Obj.looselyEqual_cypherNull.1 (Graph.ne_cypherNull_of_element? hsome))
    have hkeep : Returns w (Step.notNull.run env [t.carry obj])
        (if obj.looselyEqual .cypherNull then [] else [t.carry obj]) :=
      .notNull
    rw [hne] at hkeep
    refine .inl ⟨obj, element, hsel.cons ?_, hfound, hfound⟩
    cases binding.nullable with
    | true => exact hkeep.cons .nil
    | false => exact .nil
  · rw [hnullable]
    exact .inr ⟨hsel.cons (Returns.notNull.cons .nil), rfl⟩

/-- The property of a variable, if it is not null. -/
lemma returns_access (h : scope.HeldAt w t) (hv : scope.binding? v = some binding)
    (hkind : binding.kind = .node ∨ binding.kind = .relationship) (hobj : t.obj.get? v = none)
    (key : String) : Returns w (run env (binding.select v ++ [.access false key]) [t])
      (((Expr.property (.var v) key).operandValue w.graph t).toList.map t.carry) := by
  rw [Expr.operandValue]
  rcases h.returns_bindingSelect hv hkind hobj env with ⟨obj, element, hsel, hfound,
    helem⟩ | ⟨hsel, hnone⟩
  · rw [helem]
    exact hsel.append ((Returns.values hfound key).cons .nil)
  · rw [hnone]
    exact hsel.append rfl

end Scope.HeldAt

lemma Literal.looselyEqual_null {v : Value} (hv : l.toValue = .ok v) :
    l.obj.looselyEqual .cypherNull = (Expr.literal l).isNullLiteral := by
  cases l with
  | null => exact Obj.looselyEqual_cypherNull.2 rfl
  | string s =>
    obtain ⟨hs, -⟩ := check_bind_eq_ok.1 hv
    have hs : Plain s := (delivers_checkName s _).result () hs
    refine Bool.eq_false_iff.2 fun h => ?_
    obtain rfl := Obj.string.inj (Obj.looselyEqual_cypherNull.1 h)
    simp [Plain] at hs
  | bool | int | float | list | map => rfl

namespace Expr

variable {e : Expr} {key : String} {n n' : Nat} {a : Traversal}

lemma lower_property_operand (hv : scope.binding? v = some binding)
    (hkind : binding.kind = .node ∨ binding.kind = .relationship)
    (h : (Expr.property (.var v) key).lower scope .operand n = .ok (a, n')) :
    a = binding.select v ++ [.access false key] := by
  have hlookup : scope.lookup v "predicate" = .ok binding := by rw [Scope.lookup, hv]
  rw [Expr.lower] at h
  obtain ⟨access?, haccess, h⟩ := stateT_lift_bind_eq_ok.1 h
  obtain ⟨_, heq, haccess⟩ := bind_eq_ok.1 haccess
  obtain rfl := Except.ok.inj (hlookup.symm.trans heq)
  obtain ⟨-, haccess⟩ := check_bind_eq_ok.1 haccess
  rcases hkind with hkind | hkind
  all_goals
    rw [hkind] at haccess
    obtain rfl := pure_eq_ok.1 haccess
    exact (stateT_pure_eq_ok.1 h).1.symm

lemma lower_property_value (hv : scope.binding? v = some binding)
    (hkind : binding.kind = .node ∨ binding.kind = .relationship)
    (h : (Expr.property (.var v) key).lower scope (.value .raw) n = .ok (a, n')) :
    a = [.select [.named v], .unlessNull [.coalesce [[.access false key], null]]] := by
  have hlookup (context : String) : scope.lookup v context = .ok binding := by rw [Scope.lookup, hv]
  rw [Expr.lower] at h
  obtain ⟨access?, haccess, h⟩ := stateT_lift_bind_eq_ok.1 h
  obtain rfl := Except.ok.inj haccess
  obtain ⟨step, hstep, h⟩ := stateT_lift_bind_eq_ok.1 h
  obtain ⟨base, hbase, rfl⟩ := stateT_map_eq_ok.1 h
  have hread : scope.read v .raw = .ok [.select [.named v]] := by
    rw [Scope.read, hlookup]
    rcases hkind with hkind | hkind <;> simp [hkind, bind, Except.bind, pure, Except.pure]
  have hstep : step = .unlessNull [.coalesce [[.access false key], null]] := by
    obtain ⟨-, hstep⟩ := check_bind_eq_ok.1 hstep
    have hmap : (binding.kind == .map) = false := by rcases hkind with hkind | hkind <;>
      rw [hkind] <;> rfl
    simpa [hlookup, hmap, bind, Except.bind, pure, Except.pure] using hstep.symm
  rw [Expr.lower] at hbase
  obtain ⟨read, hbase, hpure⟩ := stateT_lift_bind_eq_ok.1 hbase
  obtain rfl := Except.ok.inj (hread.symm.trans hbase)
  obtain ⟨rfl, -⟩ := stateT_pure_eq_ok.1 hpure
  rw [hstep]
  rfl

lemma lower_literal_operand (h : (Expr.literal l).lower scope .operand n = .ok (a, n')) :
    ∃ v, l.toValue = .ok v ∧ a = [.constant v, .notNull] := by
  rw [Expr.lower] at h
  · obtain ⟨v, hv, h⟩ := stateT_lift_bind_eq_ok.1 h
    obtain ⟨rfl, -⟩ := stateT_pure_eq_ok.1 h
    exact ⟨v, hv, rfl⟩
  all_goals simp

lemma IsOperand.returns (hrow : scope.HeldAt w t) (hobj : ∀ v, t.obj.get? v = none)
    (he : e.IsOperand scope) (h : e.lower scope .operand n = .ok (a, n')) :
    Returns w (run env a [t]) ((e.operandValue w.graph t).toList.map t.carry) := by
  cases he with
  | property hv key =>
    obtain ⟨binding, hv, hkind⟩ := hv
    obtain rfl := lower_property_operand hv hkind h
    exact hrow.returns_access hv hkind (hobj _) key
  | @literal l hl =>
    obtain ⟨v, hv, rfl⟩ := lower_literal_operand h
    have hconst : Returns w ((Step.constant v).run env [t]) [t.carry l.obj] :=
      .constant (Literal.yields_eval env l v hv)
    have hkeep : Returns w (Step.notNull.run env [t.carry l.obj])
        (if l.obj.looselyEqual .cypherNull then [] else [t.carry l.obj]) := .notNull
    rw [Literal.looselyEqual_null hv] at hkeep
    refine hconst.cons (hkeep.cons ?_)
    cases l <;> exact .nil

end Expr

/-! ## Membership -/

lemma Literal.objs_eq_map (ls : List Literal) : objs ls = ls.map Literal.obj :=
  eq_map_of_cons rfl (fun _ _ => rfl) ls

lemma Literal.flattened_objs {ls : List Literal} (h : ∀ inner, ls ≠ [.list inner]) :
    flattened (objs ls) = objs ls := by
  rw [flattened.eq_def]
  split
  · rename_i items hobjs
    obtain ⟨l, rfl, hl⟩ := map_eq_singleton_iff.1 (objs_eq_map ls ▸ hobjs)
    cases l with
    | list inner => exact absurd rfl (h inner)
    | _ => cases hl
  · rfl

lemma Predicate.holds_within {ls : List Literal} {vs : List Value}
    (h : Literal.toValues ls = .ok vs) (obj : Obj) :
    (within vs).holds env obj = .ok ((flattened (Literal.objs ls)).any obj.looselyEqual) := by
  have hvals := Literal.yields_evals env ls vs h
  simp only [Predicate.holds, argument, Env.test, operands, operator, hvals]
  rfl

namespace Expr

variable {e : Expr} {a : Traversal} {n n' : Nat} {ls : List Literal}

/-- The expression is a list of literals, as one literal or item by item. -/
inductive IsListOf (ls : List Literal) : Expr → Prop
  | literal : IsListOf ls (.literal (.list ls))
  | list : IsListOf ls (.list (ls.map .literal))

lemma IsListOf.toValues_eq {vs : List Value} (h : e.IsListOf ls) (hvs : e.Candidates vs) :
    Literal.toValues ls = .ok vs := by
  have hinj : Function.Injective Expr.literal := fun l l' h => literal.inj h
  cases h with
  | literal => cases hvs with | literal hvs => exact hvs
  | list =>
    generalize he : Expr.list (ls.map .literal) = e at hvs
    cases hvs with
    | list hvs => exact map_injective_iff.2 hinj (list.inj he) ▸ hvs
    | _ => cases he

/-- A test of membership in a list of literals is one of the operand, and it passes what is loosely
equal to one of the literals.  The one exception is a list that stands alone in the list, and then
it is a test of membership in that list. -/
theorem lower_member_holds {item group : Expr} (hgroup : group.IsListOf ls)
    (h : (member item group).lower scope .filter n = .ok (a, n')) :
    ∃ operand vs, item.lower scope .operand n = .ok (operand, n') ∧
      a = operand ++ [.is (.within vs)] ∧
      ∀ env obj, ∃ passed, (Predicate.within vs).holds env obj = .ok passed ∧
        ((∀ inner, ls ≠ [.list inner]) →
        (passed = true ↔ ∃ l ∈ ls, obj.looselyEqual l.obj = true)) ∧
        ∀ inner, ls = [.list inner] →
        (passed = true ↔ ∃ l ∈ inner, obj.looselyEqual l.obj = true) := by
  rw [Expr.lower] at h
  obtain ⟨vs, hvs, h⟩ := stateT_lift_bind_eq_ok.1 h
  obtain ⟨operand, hoperand, rfl⟩ := stateT_map_eq_ok.1 h
  have hvals := hgroup.toValues_eq (group.delivers_candidates.result vs hvs)
  have hany (obj : Obj) (ls : List Literal) :
      (Literal.objs ls).any obj.looselyEqual = true ↔ ∃ l ∈ ls, obj.looselyEqual l.obj = true := by
    rw [Literal.objs_eq_map, any_map, any_eq_true]
    rfl
  refine ⟨operand, vs, hoperand, rfl, fun env obj => ⟨_, Predicate.holds_within hvals obj, ?_, ?_⟩⟩
  · intro hlone
    rw [Literal.flattened_objs hlone, hany]
  · rintro inner rfl
    exact hany obj inner

/-- A list of two lists is searched for the lists, so 1 is not in [[1], [2]]. -/
theorem lower_member_holds_lists : ∃ operand vs,
    (member (.literal (.int 1)) (.literal (.list [.list [.int 1], .list [.int 2]]))).lower
    {} .filter 1 = .ok (operand ++ [.is (.within vs)], 1) ∧
      (Predicate.within vs).holds (.standard []) (.int 1) = .ok false := by
  have hlower :
    (member (.literal (.int 1)) (.literal (.list [.list [.int 1], .list [.int 2]]))).lower {}
      .filter 1 =
      .ok ([.constant (.int 1), .notNull, .is (.within [.list [.int 1], .list [.int 2]])], 1) := rfl
  obtain ⟨operand, vs, -, heq, hholds⟩ := lower_member_holds .literal hlower
  obtain ⟨passed, hpassed, hiff, -⟩ := hholds (.standard []) (.int 1)
  have hnot : passed = false := Bool.eq_false_iff.2 (mt (hiff (by simp)).1 (by decide))
  exact ⟨operand, vs, heq ▸ hlower, hnot ▸ hpassed⟩

/-- A list that stands alone is searched itself: 1 is found in [[1, 2]]. -/
theorem lower_member_alone : ∃ vs : List Value,
    (member (.literal (.int 1)) (.literal (.list [.list [.int 1, .int 2]]))).lower {} .filter 1 =
        .ok ([.constant (.int 1), .notNull, .is (.within vs)], 1) ∧
      (Predicate.within vs).holds (.standard []) (.int 1) = .ok true ∧
      ¬ (Obj.int 1).looselyEqual (Literal.list [.int 1, .int 2]).obj = true :=
  ⟨[.list [.int 1, .int 2]], rfl, rfl, by decide⟩

end Expr

end CypherGremlin
