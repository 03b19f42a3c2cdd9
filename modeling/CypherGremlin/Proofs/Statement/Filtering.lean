import CypherGremlin.Proofs.Statement.Operand

/-!
# Filters and the truth of conditions

The filter of a condition lets a row pass or stops it; the condition is true, false or null.
`Passes` is what the run of a filter tells, and `Expr.IsCondition.filters` says of every condition
that its filter lets a row pass exactly where the condition holds (`Expr.holds`), one case for each
form of condition.  From this it follows what the filter has to do with three-valued truth:

* without a negation, a row passes exactly where the condition is true
  (`Expr.run_filter_of_negationFree`);
* a negation lets a row pass where the condition is false, but also some rows where it is null
  (`Expr.run_filter_not`).

In a comparison of two properties the left variable is read after the right value.  If this value is
a map with an entry under the name of the variable, the entry is read instead (`Expr.captures`,
`Expr.run_filter_balanced`).
-/

namespace CypherGremlin

variable {e : Expr} {v : String} {a : Traversal} {n n' : Nat} {scope : Scope} {l : Literal}
  {predicate : Predicate}

open List Traversal

variable {env : Env} {w : World} {t : Traverser}

/-! ## Filters -/

/-- From the traverser the filter gives something if and only if the truth value is true. -/
def Passes (env : Env) (w : World) (t : Traverser) (a : Traversal) (b : Bool) : Prop :=
  Returns w (Machine.produces (Traversal.run env a) t) b

namespace Passes

variable {b : Traversal} {p q : Bool} {out : List Traverser} {s : Step}

lemma of_returns (h : Returns w (run env a [t]) out) : Passes env w t a (!out.isEmpty) :=
  h.map fun out => !out.isEmpty

lemma of_keepBy {test : Traverser → Run Bool} (hs : s.run env = Machine.keepBy test)
    (h : Returns w (test t) p) : Passes env w t [s] p := by
  have hkeep : Returns w (run env [s] [t]) (if p then [t] else []) := by
    rw [run_singleton, hs, Machine.keepBy, Machine.each_singleton]
    exact h.map fun kept => if kept then [t] else []
  cases p <;> exact of_returns hkeep

lemma always : Passes env w t Traversal.always true := rfl

lemma not (h : Passes env w t a p) : Passes env w t [.not a] !p :=
  of_keepBy rfl (h.map fun b => !b)

lemma never : Passes env w t Traversal.never false := not always

variable {as : List Traversal} {ps : List Bool}

/-- A conjunction of filters. -/
lemma and (h : List.Forall₂ (Passes env w t) as ps) : Passes env w t [.and as] (ps.all id) := by
  have hall : Returns w (Machine.everyProduces (as.map (run env)) t) (ps.all id) := by
    induction h with
    | nil => exact .pure _
    | @cons a p rest ps hfirst _ ih =>
      refine hfirst.bind ?_
      cases p with
      | true => exact ih
      | false => exact .pure _
  exact of_keepBy (by rw [Step.run, runAll_eq_map]; rfl) hall

/-- A disjunction of filters. -/
lemma or (h : List.Forall₂ (Passes env w t) as ps) : Passes env w t [.or as] (ps.any id) := by
  have hany : Returns w (Machine.someProduces (as.map (run env)) t) (ps.any id) := by
    induction h with
    | nil => exact .pure _
    | @cons a p rest ps hfirst _ ih =>
      refine hfirst.bind ?_
      cases p with
      | true => exact .pure _
      | false => exact ih
  exact of_keepBy (by rw [Step.run, runAll_eq_map]; rfl) hany

lemma operand_is {x : Option Obj} {q : Obj → Bool}
    (h : Returns w (run env a [t]) (x.toList.map t.carry))
    (htest : ∀ obj ∈ x, predicate.holds env obj = .ok (q obj)) :
    Passes env w t (a ++ [.is predicate]) (x.any q) := by
  cases x with
  | none =>
    have hnil : Returns w (run env [.is predicate] []) [] := rfl
    exact of_returns (h.append hnil)
  | some obj =>
    have his : Returns w ((Step.is predicate).run env [t.carry obj])
        (if q obj then [t.carry obj] else []) :=
      .is (htest obj rfl)
    have hpasses := of_returns (h.append (his.cons .nil))
    cases hobj : q obj <;> simpa [hobj] using hpasses

end Passes

namespace Expr

/-- Comparing the property of a variable, the filter reads the variable where it holds the other
side.  If the other side is a map with an entry under the name of the variable, it reads the entry.
-/
def captures (g : Graph) (row : Traverser) : Expr → Bool
  | compare _ (property (var v) _) r => (r.operandValue g row).any fun obj => (obj.get? v).isSome
  | not e => e.captures g row
  | and l r | or l r => l.captures g row || r.captures g row
  | _ => false

lemma holds_compare (g : Graph) (row : Traverser) (op : Comparison) (l r : Expr) :
    (compare op l r).holds g row = (l.operandValue g row).any fun x =>
    (r.operandValue g row).any fun y => op.truth x y == some true := by
  change ((compare op l r).truth g row == some true) = _
  rw [truth]
  cases l.operandValue g row <;> cases r.operandValue g row <;> simp

lemma holds_hasLabels (g : Graph) (row : Traverser) (v : String) (labels : List String) :
    (hasLabels v labels).holds g row = labels.all fun name => (row.element? g v).any
    (·.label == name) := by
  change ((hasLabels v labels).truth g row == some true) = _
  rw [truth]
  induction labels with
  | nil => rfl
  | cons name rest ih =>
    rw [foldr_cons, all_cons, ← ih, Bool.eq_iff_iff, beq_iff_eq, Truth.and_eq_true_iff]
    cases row.element? g v <;> simp

lemma operandValue_literal (g : Graph) (row : Traverser) (h : (literal l).isNullLiteral = false) :
    (literal l).operandValue g row = some l.obj := by
  cases l with
  | null => simp [isNullLiteral] at h
  | _ => rfl

lemma operandValue_of_isNullLiteral (g : Graph) (row : Traverser) (h : e.isNullLiteral = true) :
    e.operandValue g row = none := by
  cases e with
  | literal l =>
    cases l with
    | null => rfl
    | _ => simp [isNullLiteral] at h
  | _ => simp [isNullLiteral] at h

section

lemma passes_compare_constant (op : Comparison) {v : Value} {b : Traversal} (hv : l.toValue = .ok v)
    (hb : Returns w (run env b [t]) ((e.operandValue w.graph t).toList.map t.carry)) :
    Passes env w t (b ++ [.is (op.predicate v)])
      ((e.operandValue w.graph t).any fun x => op.truth x l.obj == some true) :=
  .operand_is hb fun x _ => op.holds_predicate (Literal.yields_eval env l v hv) x

variable (hrow : scope.HeldAt w t)

include hrow

/-- A comparison of two properties: the right one gets a label, and the left one is compared with
it. -/
lemma passes_compare_properties (op : Comparison) {v' key key' : String} {binding : Binding}
    {right : Traversal} (hv : scope.binding? v = some binding)
    (hkind : binding.kind = .node ∨ binding.kind = .relationship)
    (hright : Returns w (run env right [t])
      (((property (var v') key').operandValue w.graph t).toList.map t.carry))
    (hcap : ∀ y ∈ (property (var v') key').operandValue w.graph t, y.get? v = none) (k : UInt32) :
    Passes env w t
    (right ++ .as (.token (.generated k)) ::
      (binding.select v ++ [.access false key] ++
      [.whereLabel op.labelled (.token (.generated k))]))
      (((property (var v) key).operandValue w.graph t).any fun x =>
        ((property (var v') key').operandValue w.graph t).any fun y => op.truth x y ==
        some true) := by
  cases hy : (property (var v') key').operandValue w.graph t with
  | none =>
    have hnil :
      Returns w (run env (.as (.token (.generated k)) :: (binding.select v ++ [.access false key] ++
        [.whereLabel op.labelled (.token (.generated k))])) []) [] := by
      rw [Binding.select]
      cases binding.nullable <;> rfl
    have hpasses := Passes.of_returns ((hy ▸ hright).append hnil)
    cases (property (var v) key).operandValue w.graph t <;> exact hpasses
  | some y =>
    -- The traverser with the right side, under its label.
    let t₁ := (t.carry y).mark (Token.generated k).encode
    have hlabel : ∀ v, Plain v → t₁.label? v = t.label? v := fun v hv =>
      Traverser.label?_mark_of_ne (fun heq => by simp [← heq, Plain] at hv) _
    have hsame : (property (var v) key).operandValue w.graph t₁ =
        (property (var v) key).operandValue w.graph t := by
      rw [operandValue, operandValue, Traverser.element?, Traverser.element?,
        hlabel v (hrow.held v binding hv hkind).1]
    have hleft : Returns w (run env (binding.select v ++ [.access false key]) [t₁]) _ :=
      (hrow.of_label? hlabel).returns_access hv hkind (hcap y hy) key
    rw [hsame] at hleft
    have hmark : Returns w ((Step.as (.token (.generated k))).run env [t.carry y]) [t₁] := .pure _
    rw [hy] at hright
    cases hx : (property (var v) key).operandValue w.graph t with
    | none =>
      rw [hx] at hleft
      have hnil : Returns w (run env [.whereLabel op.labelled (.token (.generated k))] []) [] := rfl
      exact .of_returns (hright.append (hmark.cons (hleft.append hnil)))
    | some x =>
      rw [hx] at hleft
      have hname : ¬ IsBucketName (Token.generated k).encode := by
        simp [IsBucketName, Token.encode_injective.eq_iff]
      have hfind : (t₁.carry x).find? w.buckets (Token.generated k).encode = some y := by
        rw [Traverser.find?_eq_label? hrow.bucketed hname
          ((hrow.plain_operandValue hx).get?_token _)]
        exact Traverser.label?_mark_self (t.carry y) _
      have hwhere : Returns w
          ((Step.whereLabel op.labelled (.token (.generated k))).run env
          ([()].map fun _ => t₁.carry x))
          (([()].filter fun _ => op.truth x y == some true).map fun _ => t₁.carry x) :=
        .whereLabel (fun _ => y) (fun _ _ => hfind) fun _ _ => op.comparesWith_labelled x y
      have hpasses :=
        Passes.of_returns (hright.append (hmark.cons (hleft.append (hwhere.cons .nil))))
      cases htruth : op.truth x y == some true <;> simpa [htruth] using hpasses

lemma looselyEqual_operandValue (v key : String) :
    (((property (var v) key).operandValue w.graph t).getD .cypherNull).looselyEqual .cypherNull =
      ((property (var v) key).operandValue w.graph t).isNone := by
  cases hx : (property (var v) key).operandValue w.graph t with
  | none => exact Obj.looselyEqual_cypherNull.2 rfl
  | some x =>
    refine Bool.eq_false_iff.2 fun h => ?_
    obtain rfl : x = .cypherNull := Obj.looselyEqual_cypherNull.1 h
    simpa [Obj.IsPlain, Obj.cypherNull, Plain] using hrow.plain_operandValue hx

variable (hobj : ∀ v, t.obj.get? v = none)

include hobj

/-- A comparison lets a row pass where it is true, if the row captures no variable of it. -/
lemma passes_compare (op : Comparison) {l r : Expr} (hl : l.IsOperand scope)
    (hr : r.IsOperand scope) (hcap : (compare op l r).captures w.graph t = false)
    (h : (compare op l r).lower scope .filter n = .ok (a, n')) :
    Passes env w t a ((compare op l r).holds w.graph t) := by
  rw [Expr.lower] at h
  rw [holds_compare]
  -- With null it is never true; else lowering asks for a literal, on the right first.
  by_cases hnull : (l.isNullLiteral || r.isNullLiteral) = true
  · rw [if_pos hnull] at h
    obtain ⟨rfl, -⟩ := stateT_pure_eq_ok.1 h
    rcases Bool.or_eq_true_iff.1 hnull with hnull | hnull
    · rw [operandValue_of_isNullLiteral _ _ hnull]
      exact .never
    · simp only [operandValue_of_isNullLiteral _ _ hnull, Option.any_none]
      cases l.operandValue w.graph t <;> exact .never
  · rw [if_neg hnull] at h
    simp only [Bool.or_eq_true, not_or, Bool.not_eq_true] at hnull
    obtain ⟨right?, hright?, h⟩ := stateT_lift_bind_eq_ok.1 h
    cases hr with
    | literal hscalar =>
      obtain ⟨v, hv, hright?⟩ := bind_eq_ok.1 hright?
      obtain rfl := pure_eq_ok.1 hright?
      obtain ⟨left, hleft, rfl⟩ := stateT_map_eq_ok.1 h
      rw [operandValue_literal _ _ hnull.2]
      exact passes_compare_constant op hv (hl.returns hrow hobj hleft)
    | property hv' key' =>
      obtain rfl := Except.ok.inj hright?
      obtain ⟨left?, hleft?, h⟩ := stateT_lift_bind_eq_ok.1 h
      cases hl with
      | @literal lit hscalar =>
        obtain ⟨v, hv, hleft?⟩ := bind_eq_ok.1 hleft?
        obtain rfl := pure_eq_ok.1 hleft?
        obtain ⟨right, hright, rfl⟩ := stateT_map_eq_ok.1 h
        rw [operandValue_literal _ _ hnull.1]
        -- The literal is on the left, so the comparison is turned around.
        have hflipped : Passes env w t (right ++ [.is (op.flipped.predicate v)]) _ :=
          passes_compare_constant op.flipped hv
            (IsOperand.returns hrow hobj (.property hv' key') hright)
        simp only [op.truth_flipped (Literal.looselyEqual_comm hscalar _)] at hflipped
        exact hflipped
      | property hv key =>
        obtain rfl := Except.ok.inj hleft?
        obtain ⟨binding, hv, hkind⟩ := hv
        obtain ⟨temporary, m, hfresh, h⟩ := stateT_bind_eq_ok.1 h
        obtain ⟨right, m', hright, h⟩ := stateT_bind_eq_ok.1 h
        obtain ⟨left, hleft, rfl⟩ := stateT_map_eq_ok.1 h
        obtain ⟨rfl, -⟩ := Prod.mk.inj (Except.ok.inj hfresh)
        obtain rfl := lower_property_operand hv hkind hleft
        rw [Goal.ofTest, append_assoc, append_assoc]
        refine passes_compare_properties hrow op hv hkind
          (IsOperand.returns hrow hobj (.property hv' key') hright) ?_ _
        intro y hy
        rw [captures, Option.mem_def.1 hy] at hcap
        simpa using hcap

lemma passes_stringMatch {parameters : Parameters} (test : StringTest) (hv : scope.IsElement v)
    (key other : String)
    (h : (stringMatch test (property (var v) key) (literal (.string other))).lower scope .filter n =
      .ok (a, n')) :
    Passes (Env.standard parameters) w t a
      ((stringMatch test (property (var v) key) (literal (.string other))).holds w.graph t) := by
  have htruth : (stringMatch test (property (var v) key) (literal (.string other))).holds
      w.graph t =
      ((property (var v) key).operandValue w.graph t).any fun x =>
      test.truth other x == some true := by
    change (Expr.truth w.graph t _ == some true) = _
    rw [truth]
    cases (property (var v) key).operandValue w.graph t <;> simp
  rw [Expr.lower] at h
  obtain ⟨argument, harg, h⟩ := stateT_lift_bind_eq_ok.1 h
  obtain ⟨left, hleft, rfl⟩ := stateT_map_eq_ok.1 h
  obtain ⟨-, harg⟩ := check_bind_eq_ok.1 harg
  obtain rfl := pure_eq_ok.1 harg
  rw [htruth]
  refine .operand_is (IsOperand.returns hrow hobj (.property hv key) hleft) fun x hx => ?_
  refine test.holds_predicate parameters other fun text htext => ?_
  have hplain := hrow.plain_operandValue hx
  rwa [htext] at hplain

lemma returns_property_value (hv : scope.IsElement v) (key : String)
    (h : (property (var v) key).lower scope (.value .raw) n = .ok (a, n')) :
    Returns w (run env a [t])
    [t.carry (((property (var v) key).operandValue w.graph t).getD .cypherNull)] := by
  obtain ⟨binding, hv, hkind⟩ := hv
  obtain rfl := lower_property_value hv hkind h
  obtain ⟨obj, hsel, helem, hcase⟩ := hrow.returns_select hv hkind (hobj v) env
  have hnull (t : Traverser) : Returns w (run env null [t]) [t.carry .cypherNull] :=
    Returns.cons (.constant (Value.eval_null env)) .nil
  have hcond :
      Returns w ((Condition.predicate (.neq .null)).run env (t.carry obj)) !obj.looselyEqual
      .cypherNull :=
    .result (holds_notNull env obj)
  refine hsel.cons (Returns.cons ?_ .nil)
  rw [operandValue, helem]
  rcases hcase with hsome | ⟨-, rfl⟩
  · obtain ⟨element, hfound⟩ := Option.isSome_iff_exists.1 hsome
    rw [Bool.eq_false_iff.2
      (mt Obj.looselyEqual_cypherNull.1 (Graph.ne_cypherNull_of_element? hsome))] at hcond
    have hvals : Returns w (run env [.access false key] [t.carry obj]) _ :=
      (Returns.values hfound key).cons .nil
    have hcoalesce : Returns w (run env [.coalesce [[.access false key], null]] [t.carry obj])
        [t.carry ((Table.get? element.properties key).getD .cypherNull)] := by
      refine Returns.cons ?_ .nil
      cases hkey : Table.get? element.properties key with
      | none =>
        rw [hkey] at hvals
        exact .coalesce_second hvals (hnull _) (by simp)
      | some x =>
        rw [hkey] at hvals
        exact .coalesce_first hvals (by simp)
    rw [hfound, Option.bind_some]
    exact .choose_yes hcond hcoalesce
  · rw [Obj.looselyEqual_cypherNull.2 rfl] at hcond
    exact .choose_no hcond (hnull _)

lemma passes_nullTest (hv : scope.IsElement v) (key : String) (test : Bool → Bool)
    (htest : ∀ obj, predicate.holds env obj = .ok (test (obj.looselyEqual .cypherNull)))
    (h : (property (var v) key).lower scope (.value .raw) n = .ok (a, n')) :
    Passes env w t (a ++ [.is predicate])
    (test ((property (var v) key).operandValue w.graph t).isNone) := by
  rw [← looselyEqual_operandValue hrow]
  exact .operand_is (x := some _) (q := fun obj => test (obj.looselyEqual .cypherNull))
    (returns_property_value hrow hobj hv key h) fun obj _ => htest obj

lemma passes_hasLabels (hv : scope.IsElement v) (labels : List String)
    (h : (hasLabels v labels).lower scope .filter n = .ok (a, n')) :
    Passes env w t a ((hasLabels v labels).holds w.graph t) := by
  rw [Expr.lower] at h
  obtain ⟨_, -, h⟩ := stateT_lift_bind_eq_ok.1 h
  obtain ⟨tests, htests, h⟩ := stateT_lift_bind_eq_ok.1 h
  obtain ⟨rfl, -⟩ := stateT_pure_eq_ok.1 h
  obtain ⟨-, rfl⟩ := (delivers_labelTests labels).result tests htests
  obtain ⟨binding, hv, hkind⟩ := hv
  obtain ⟨obj, hsel, helem, -⟩ := hrow.returns_select hv hkind (hobj v) env
  have hlabels : Returns w (run env (labelSteps labels) ([()].map fun _ => t.carry obj)) _ :=
    Matching.returns_labelSteps labels fun _ _ => helem.symm
  have hpasses := Passes.of_returns (hsel.cons hlabels)
  rw [Goal.ofTest, holds_hasLabels]
  cases hall : labels.all fun name => (t.element? w.graph v).any (·.label == name) <;>
    simpa [hall] using hpasses

end

/-- The filter of a condition, and its branches where the condition stands in a conjunction or a
disjunction. -/
structure Filters (env : Env) (w : World) (t : Traverser) (e : Expr) (a : Traversal) (b : Bool) :
    Prop where
  passes : Passes env w t a b
  conjuncts : ∃ bs, List.Forall₂ (Passes env w t) (e.conjuncts a) bs ∧ bs.all id = b
  disjuncts : ∃ bs, List.Forall₂ (Passes env w t) (e.disjuncts a) bs ∧ bs.any id = b

/-- What is neither a conjunction nor a disjunction is one branch of either. -/
lemma Filters.of_passes {b : Bool} (h : Passes env w t a b) (hand : e.conjuncts a = [a])
    (hor : e.disjuncts a = [a]) : Filters env w t e a b where
  passes := h
  conjuncts := ⟨[b], hand ▸ .cons h .nil, by simp⟩
  disjuncts := ⟨[b], hor ▸ .cons h .nil, by simp⟩

/-- The filter of a condition lets a row pass where the condition holds. -/
theorem IsCondition.filters (he : e.IsCondition scope) {parameters : Parameters}
    (hrow : scope.HeldAt w t) (hobj : ∀ v, t.obj.get? v = none)
    (hcap : e.captures w.graph t = false) (h : e.lower scope .filter n = .ok (a, n')) :
    Filters (Env.standard parameters) w t e a (e.holds w.graph t) := by
  -- Nested conjunctions become one step, so the conjuncts are kept beside the filter.
  induction he generalizing n n' a with
  | bool b =>
    cases b with
    | true =>
      obtain ⟨rfl, -⟩ := stateT_pure_eq_ok.1 h
      exact .of_passes .always rfl rfl
    | false =>
      obtain ⟨rfl, -⟩ := stateT_pure_eq_ok.1 h
      exact .of_passes .never rfl rfl
  | null =>
    obtain ⟨rfl, -⟩ := stateT_pure_eq_ok.1 h
    exact .of_passes .never rfl rfl
  | compare op hl hr => exact .of_passes (passes_compare hrow hobj op hl hr hcap h) rfl rfl
  | stringMatch test hv key other =>
    exact .of_passes (passes_stringMatch hrow hobj test hv key other h) rfl rfl
  | isNull hv key =>
    rw [Expr.lower] at h
    obtain ⟨b, hb, rfl⟩ := stateT_map_eq_ok.1 h
    have hpasses := passes_nullTest hrow hobj hv key id (holds_isNull (Env.standard parameters)) hb
    exact .of_passes (by simpa [holds, truth, Goal.ofTest, Step.isNull] using hpasses) rfl rfl
  | isNotNull hv key =>
    rw [Expr.lower] at h
    obtain ⟨b, hb, rfl⟩ := stateT_map_eq_ok.1 h
    have hpasses :=
      passes_nullTest hrow hobj hv key (!·) (holds_notNull (Env.standard parameters)) hb
    exact .of_passes (by simpa [holds, truth, Goal.ofTest, Step.notNull] using hpasses) rfl rfl
  | hasLabels hv labels => exact .of_passes (passes_hasLabels hrow hobj hv labels h) rfl rfl
  | not _ ih =>
    rw [Expr.lower] at h
    obtain ⟨inner, hinner, rfl⟩ := stateT_map_eq_ok.1 h
    exact .of_passes (ih hcap hinner).passes.not rfl rfl
  | and _ _ ihl ihr =>
    obtain ⟨hcl, hcr⟩ := Bool.or_eq_false_iff.1 hcap
    rw [Expr.lower] at h
    obtain ⟨left, m, hleft, h⟩ := stateT_bind_eq_ok.1 h
    obtain ⟨right, hright, rfl⟩ := stateT_map_eq_ok.1 h
    obtain ⟨bs, hbs, hl⟩ := (ihl hcl hleft).conjuncts
    obtain ⟨bs', hbs', hr⟩ := (ihr hcr hright).conjuncts
    have hall : (bs ++ bs').all id = _ := all_append.trans (congrArg₂ _ hl hr)
    have hboth := rel_append hbs hbs'
    have hpasses := Passes.and hboth
    rw [hall] at hpasses
    exact ⟨hpasses, ⟨bs ++ bs', hboth, hall⟩, ⟨[_], .cons hpasses .nil, by simp [holds]⟩⟩
  | or _ _ ihl ihr =>
    obtain ⟨hcl, hcr⟩ := Bool.or_eq_false_iff.1 hcap
    rw [Expr.lower] at h
    obtain ⟨left, m, hleft, h⟩ := stateT_bind_eq_ok.1 h
    obtain ⟨right, hright, rfl⟩ := stateT_map_eq_ok.1 h
    obtain ⟨bs, hbs, hl⟩ := (ihl hcl hleft).disjuncts
    obtain ⟨bs', hbs', hr⟩ := (ihr hcr hright).disjuncts
    have hany : (bs ++ bs').any id = _ := any_append.trans (congrArg₂ _ hl hr)
    have hboth := rel_append hbs hbs'
    have hpasses := Passes.or hboth
    rw [hany] at hpasses
    exact ⟨hpasses, ⟨[_], .cons hpasses .nil, by simp [holds]⟩, ⟨bs ++ bs', hboth, hany⟩⟩

/-- From a row the filter runs without stopping, leaves the world as it is, and gives something
exactly where the condition holds. -/
lemma IsCondition.run_filter (he : e.IsCondition scope) (parameters : Parameters)
    (hrow : scope.HeldAt w t) (hobj : ∀ entries, t.obj ≠ .map entries)
    (hcap : e.captures w.graph t = false) (h : e.lower scope .filter n = .ok (a, n')) :
    ∃ out, Bytecode.run (Env.standard parameters) a.bytecode [t] w = .ok (out, w) ∧
      (out ≠ [] ↔ e.holds w.graph t = true) := by
  have hentry (v : String) : t.obj.get? v = none := by
    cases hobj' : t.obj with
    | map entries => exact absurd hobj' (hobj entries)
    | _ => rfl
  have hpasses : Passes (Env.standard parameters) w t a (e.holds w.graph t) :=
    (he.filters hrow hentry hcap h).passes
  obtain ⟨out, w', hrun, hpure⟩ := stateT_bind_eq_ok.1 hpasses
  obtain ⟨hholds, rfl⟩ := stateT_pure_eq_ok.1 hpure
  rw [Bytecode.run_bytecode]
  refine ⟨out, hrun, ?_⟩
  rw [← hholds]
  simp

end Expr

/-! ## Conditions without a negation -/

/-- A filter without a negation lets a row pass exactly where its condition is true, in three-valued
logic.  It does so on every graph and at every row, unless a comparison of the condition reads a
variable where it holds a map with an entry under the name of the variable. -/
theorem Expr.run_filter_of_negationFree {scope : Scope} {e : Expr} {n n' : Nat} {a : Traversal}
    (h : e.lower scope .filter n = .ok (a, n')) (he : e.IsCondition scope)
    (hfree : e.negationFree = true) (hrow : scope.HeldAt w t)
    (hobj : ∀ entries, t.obj ≠ .map entries) (hcapture : e.captures w.graph t = false)
    (parameters : Parameters) :
    ∃ out, Bytecode.run (Env.standard parameters) a.bytecode [t] w = .ok (out, w) ∧
      (out ≠ [] ↔ e.truth w.graph t = some true) := by
  obtain ⟨out, hrun, hout⟩ := he.run_filter parameters hrow hobj hcapture h
  exact ⟨out, hrun, hout.trans (holds_iff_truth hfree)⟩

def Graph.single (element : Element) : Graph :=
  ⟨⟨[(1, element)], by simp⟩, .empty, 1, by simp, by simp [Store.empty]⟩

/-- A node, and another one that may be null. -/
def Scope.couple : Scope := (Scope.declare {} "n" .node false).declare "m" .node true

/-- A row where the one node is the vertex and the other one is null. -/
def Traverser.widow : Traverser := ⟨.vertex 1, [("n", .vertex 1), ("m", .cypherNull)], none⟩

lemma Scope.heldAt_widow {element : Element}
    (h : ∀ property ∈ element.properties, property.2.IsPlain) :
    Scope.couple.HeldAt ⟨.single element, []⟩ .widow where
  plain obj element' hfound := by
    cases obj with
    | vertex id =>
      obtain ⟨-, rfl⟩ : id = 1 ∧ element' = element := by
        simpa [Graph.single] using Table.mem_of_get? hfound
      exact h
    | _ => simp [Graph.element?, Graph.single, Store.empty, Store.get?, Table.get?] at hfound
  bucketed := by simp [World.Bucketed]
  held v binding hv _ := by
    have hmem : (v, binding) ∈ [("n", ⟨.node, false⟩), ("m", ⟨.node, true⟩)] := Table.mem_of_get? hv
    simp only [mem_cons, Prod.mk.injEq, not_mem_nil, or_false] at hmem
    obtain ⟨rfl, rfl⟩ | ⟨rfl, rfl⟩ := hmem
    · exact ⟨by decide, .vertex 1, rfl, .inl rfl⟩
    · exact ⟨by decide, .cypherNull, rfl, .inr ⟨rfl, rfl⟩⟩

lemma Scope.isElement_couple : Scope.couple.IsElement "n" ∧ Scope.couple.IsElement "m" :=
  ⟨⟨⟨.node, false⟩, rfl, .inl rfl⟩, ⟨⟨.node, true⟩, rfl, .inl rfl⟩⟩

/-- The condition `(n.low < n.high AND n.name STARTS WITH 'A' OR m.low = n.low) AND n.nick IS NULL`.
-/
def Expr.anonymous : Expr :=
  .and (.or (.and (.compare .lt (.property (.var "n") "low") (.property (.var "n") "high"))
      (.stringMatch .startsWith (.property (.var "n") "name") (.literal (.string "A"))))
      (.compare .eq (.property (.var "m") "low") (.property (.var "n") "low")))
    (.isNull (.property (.var "n") "nick"))

/-- A vertex of which the condition is true. -/
def Element.ann : Element :=
  ⟨"Person", [("low", .int 1), ("high", .int 2), ("name", .string "Ann")], by decide⟩

lemma Scope.heldAt_ann : Scope.couple.HeldAt ⟨.single .ann, []⟩ .widow := Scope.heldAt_widow (by
  simp [Element.ann, Obj.IsPlain]
  decide)

/-- A row passes although a comparison with a node that is null is null. -/
theorem Expr.run_filter_of_negationFree_anonymous : ∃ a n' out,
    Expr.anonymous.lower Scope.couple .filter 1 = .ok (a, n') ∧
      Expr.anonymous.IsCondition Scope.couple ∧
      Expr.anonymous.negationFree = true ∧ Scope.couple.HeldAt ⟨.single .ann, []⟩ .widow ∧
      Expr.anonymous.captures (.single .ann) .widow = false ∧
      Bytecode.run (Env.standard []) a.bytecode
      [.widow] ⟨.single .ann, []⟩ = .ok (out, ⟨.single .ann, []⟩) ∧ out ≠ [] := by
  obtain ⟨⟨a, n'⟩, hlower⟩ : ∃ r, Expr.anonymous.lower Scope.couple .filter 1 = .ok r := by
    decide +kernel
  obtain ⟨hn, hm⟩ := Scope.isElement_couple
  have hcond : Expr.anonymous.IsCondition Scope.couple :=
    .and (.or (.and (.compare .lt (.property hn "low") (.property hn "high"))
      (.stringMatch .startsWith hn "name" "A"))
      (.compare .eq (.property hm "low") (.property hn "low"))) (.isNull hn "nick")
  have hcaps : Expr.anonymous.captures (.single .ann) .widow = false := by decide +kernel
  have htruth : Expr.anonymous.truth (.single .ann) .widow = some true := by decide +kernel
  obtain ⟨out, hrun, hout⟩ :=
    Expr.run_filter_of_negationFree hlower hcond rfl Scope.heldAt_ann
      (by simp [Traverser.widow]) hcaps []
  exact ⟨a, n', out, hlower, hcond, rfl, Scope.heldAt_ann, hcaps, hrun, hout.2 htruth⟩

/-- The condition `n.left = n.right`. -/
def Expr.balanced : Expr :=
  .compare .eq (.property (.var "n") "left") (.property (.var "n") "right")

/-- A vertex with two equal maps, which have an entry `n`. -/
def Element.scales : Element :=
  ⟨"Scales", [("left", .map [(.string "n", .int 5)]), ("right", .map [(.string "n", .int 5)])], by
    decide⟩

/-- Two equal maps with an entry under the name of the node are equal, but the filter stops: it
reads the entry where it should read the node. -/
theorem Expr.run_filter_balanced : Expr.balanced.IsCondition Scope.couple ∧
    Expr.balanced.negationFree = true ∧
    Scope.couple.HeldAt ⟨.single .scales, []⟩ .widow ∧ Expr.balanced.captures
    (.single .scales) .widow = true ∧ Expr.balanced.truth (.single .scales) .widow = some true ∧
    ∃ a n' halt, Expr.balanced.lower Scope.couple .filter 1 = .ok (a, n') ∧
      Bytecode.run (Env.standard []) a.bytecode [.widow] ⟨.single .scales, []⟩ = .error halt := by
  obtain ⟨hn, -⟩ := Scope.isElement_couple
  have hrow : Scope.couple.HeldAt ⟨.single .scales, []⟩ .widow := Scope.heldAt_widow (by
    simp [Element.scales, Obj.IsPlain]
    decide)
  obtain ⟨⟨a, n'⟩, hlower, hnone⟩ : ∃ r, Expr.balanced.lower Scope.couple .filter 1 = .ok r ∧
      ¬ ∃ out, Bytecode.run (Env.standard []) (Traversal.bytecode r.1) [.widow] ⟨.single .scales,
      []⟩ = .ok out := by
    decide +kernel
  refine ⟨.compare .eq (.property hn "left") (.property hn "right"), rfl, hrow, by
    decide +kernel, by decide +kernel, a, n', ?_⟩
  cases h : Bytecode.run (Env.standard []) (Traversal.bytecode a) [.widow] ⟨.single .scales,
    []⟩ with
  | error halt => exact ⟨halt, hlower, rfl⟩
  | ok r => exact absurd ⟨r, h⟩ hnone

/-! ## Negations -/

/-- The filter of a negation lets a row pass exactly where the negated condition does not hold.
Where the condition is true or false, this is where it is false.  Where it is null, the tests in it
that are null count as false: the row passes if the condition then is false, at whatever depth of
connectives and negations they stand. -/
theorem Expr.run_filter_not {scope : Scope} {e : Expr} {n n' : Nat} {a : Traversal}
    (h : (Expr.not e).lower scope .filter n = .ok (a, n')) (he : e.IsCondition scope)
    (hrow : scope.HeldAt w t) (hobj : ∀ entries, t.obj ≠ .map entries)
    (hcapture : e.captures w.graph t = false) (parameters : Parameters) :
    ∃ out, Bytecode.run (Env.standard parameters) a.bytecode [t] w = .ok (out, w) ∧
      (out ≠ [] ↔ e.holds w.graph t = false) ∧
      (e.truth w.graph t ≠ none → (out ≠ [] ↔ e.truth w.graph t = some false)) := by
  obtain ⟨out, hrun, hout⟩ := he.not.run_filter parameters hrow hobj hcapture h
  have hnot : out ≠ [] ↔ e.holds w.graph t = false := by simpa [holds] using hout
  refine ⟨out, hrun, hnot, fun hknown => ?_⟩
  obtain ⟨r, hr⟩ := Option.ne_none_iff_exists'.1 hknown
  rw [hnot, holds_of_truth hr, hr, Option.some.injEq]

/-- The condition `NOT (n.low < n.high) AND m.low = 1`. -/
def Expr.descending : Expr :=
  .and (.not (.compare .lt (.property (.var "n") "low") (.property (.var "n") "high")))
    (.compare .eq (.property (.var "m") "low") (.literal (.int 1)))

/-- A condition can be false although one of its tests is null, and then the row passes its
negation. -/
theorem Expr.run_filter_not_descending : ∃ a n' out,
    (Expr.not .descending).lower Scope.couple .filter 1 = .ok (a, n') ∧
      Expr.descending.IsCondition Scope.couple ∧
      Scope.couple.HeldAt ⟨.single .ann, []⟩ .widow ∧ Expr.descending.captures
      (.single .ann) .widow = false ∧ Expr.descending.truth (.single .ann) .widow = some false ∧
      Bytecode.run (Env.standard []) a.bytecode
      [.widow] ⟨.single .ann, []⟩ = .ok (out, ⟨.single .ann, []⟩) ∧ out ≠ [] := by
  obtain ⟨⟨a, n'⟩, hlower⟩ : ∃ r, (Expr.not .descending).lower Scope.couple .filter 1 = .ok r := by
    decide +kernel
  obtain ⟨hn, hm⟩ := Scope.isElement_couple
  have hcond : Expr.descending.IsCondition Scope.couple :=
    .and (.not (.compare .lt (.property hn "low") (.property hn "high")))
      (.compare .eq (.property hm "low") (.literal rfl))
  have hcaps : Expr.descending.captures (.single .ann) .widow = false := by decide +kernel
  have htruth : Expr.descending.truth (.single .ann) .widow = some false := by decide +kernel
  obtain ⟨out, hrun, -, hout⟩ := Expr.run_filter_not hlower hcond Scope.heldAt_ann
    (by simp [Traverser.widow]) hcaps []
  exact ⟨a, n', out, hlower, hcond, Scope.heldAt_ann, hcaps, htruth, hrun,
    (hout (by simp [htruth])).2 htruth⟩

/-- The condition `n.nick = 'A'`. -/
def Expr.nicknamed : Expr := .compare .eq (.property (.var "n") "nick") (.literal (.string "A"))

/-- A comparison with a property that is missing is null, but the row passes the filter of its
negation. -/
theorem Expr.run_filter_not_nicknamed : Expr.nicknamed.IsCondition Scope.couple ∧
    Scope.couple.HeldAt ⟨.single .ann, []⟩ .widow ∧ Expr.nicknamed.truth
    (.single .ann) .widow = none ∧
    ∃ a n' out w', (Expr.not .nicknamed).lower Scope.couple .filter 1 = .ok (a, n') ∧
      Bytecode.run (Env.standard []) a.bytecode [.widow] ⟨.single .ann, []⟩ = .ok (out, w') ∧
      out ≠ [] := by
  obtain ⟨hn, -⟩ := Scope.isElement_couple
  obtain ⟨⟨a, n'⟩, hlower, ⟨out, w'⟩, hout, hsome⟩ :
    ∃ r, (Expr.not .nicknamed).lower Scope.couple .filter 1 = .ok r ∧
      ∃ out, Bytecode.run (Env.standard []) (Traversal.bytecode r.1) [.widow] ⟨.single .ann, []⟩ =
      .ok out ∧ out.1.isEmpty = false := by
    decide +kernel
  refine ⟨.compare .eq (.property hn "nick") (.literal rfl), Scope.heldAt_ann, by
    decide +kernel, a, n', out, w', hlower, hout, ?_⟩
  rintro rfl
  simp at hsome

end CypherGremlin
