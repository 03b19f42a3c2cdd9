import CypherGremlin.Proofs.Statement.Trail

/-!
# The truth of a condition

A condition of a query is true, false or null at a row of a graph.  `Expr.truth` says which, without
a traversal: a property that is missing is null, and so is every property of a variable that is
null; a comparison with null is null, and so is an order between values of which one is a number and
the other a text; `AND`, `OR` and `NOT` are those of Kleene's logic.

A filter can only let a row pass or not.  `Expr.holds` is what it can know of a condition: a test
holds if it is true, and the connectives are those of two-valued logic.  The two agree wherever the
condition is not null (`Expr.holds_of_truth`), and a condition without `NOT` holds exactly where it
is true (`Expr.holds_iff_truth`).
-/

namespace CypherGremlin

/-! ## Three-valued logic -/

/-- A truth value, where `none` is null. -/
abbrev Truth := Option Bool

namespace Truth

/-- False if one of the two is false, true if both are true. -/
def and : Truth → Truth → Truth
  | some false, _ | _, some false => some false
  | some true, some true => some true
  | _, _ => none

/-- True if one of the two is true, false if both are false. -/
def or : Truth → Truth → Truth
  | some true, _ | _, some true => some true
  | some false, some false => some false
  | _, _ => none

/-- The opposite, where null stays null. -/
def not : Truth → Truth := Option.map (!·)

lemma and_eq_true_iff (a b : Truth) : a.and b = some true ↔ a = some true ∧ b = some true := by
  rcases a with _ | _ | _ <;> rcases b with _ | _ | _ <;> simp [and]

lemma or_eq_true_iff (a b : Truth) : a.or b = some true ↔ a = some true ∨ b = some true := by
  rcases a with _ | _ | _ <;> rcases b with _ | _ | _ <;> simp [or]

/-- The logic is monotone: what is known of a conjunction stays if null becomes true or false. -/
lemma and_of_le {a b : Truth} {x y r : Bool} (ha : ∀ r, a = some r → x = r)
    (hb : ∀ r, b = some r → y = r) (h : a.and b = some r) : (x && y) = r := by
  rcases a with _ | _ | _ <;> rcases b with _ | _ | _ <;> simp_all [and]

lemma or_of_le {a b : Truth} {x y r : Bool} (ha : ∀ r, a = some r → x = r)
    (hb : ∀ r, b = some r → y = r) (h : a.or b = some r) : (x || y) = r := by
  rcases a with _ | _ | _ <;> rcases b with _ | _ | _ <;> simp_all [or]

lemma not_of_le {a : Truth} {x r : Bool} (ha : ∀ r, a = some r → x = r) (h : a.not = some r) :
    (!x) = r := by
  obtain ⟨b, hb, rfl⟩ := Option.map_eq_some_iff.1 h
  rw [ha b hb]

end Truth

/-! ## Comparing values -/

/-- The two have an order: they are numbers, or texts, or truth values. -/
def Obj.comparable (a b : Obj) : Bool :=
  match a, b with
  | .string _, .string _ | .bool _, .bool _ => true
  | _, _ => a.number?.isSome && b.number?.isSome

/-- What has no order is not found in an order. -/
lemma Obj.compare?_eq_none {a b : Obj} (h : a.comparable b = false) : a.compare? b = none := by
  cases a <;> cases b <;> simp_all [comparable, compare?, number?]

lemma Obj.comparable_comm (a b : Obj) : b.comparable a = a.comparable b := by
  have hnum : (b.number?.isSome && a.number?.isSome) = (a.number?.isSome && b.number?.isSome) :=
    Bool.and_comm _ _
  cases a with
  | string | bool => cases b <;> rfl
  | _ => cases b <;> exact hnum

lemma Binary64.compare?_swap (x y : Binary64) : y.compare? x = (x.compare? y).map .swap := by
  simp only [compare?, Bool.or_comm y.isNaN, apply_ite (Option.map Ordering.swap), Option.map_none,
    Option.map_some]
  rw [← Std.OrientedCmp.eq_swap]

/-- The order from the other side. -/
lemma Obj.compare?_swap (a b : Obj) : b.compare? a = (a.compare? b).map .swap := by
  have hnum : (do (← b.number?).compare? (← a.number?)) =
      (do (← a.number?).compare? (← b.number?)).map Ordering.swap := by
    cases a.number? <;> cases b.number? <;> simp [← Binary64.compare?_swap]
  cases a with
  | int x =>
    cases b with
    | int y => simp [compare?, ← Std.OrientedCmp.eq_swap]
    | _ => exact hnum
  | bool x =>
    cases b with
    | bool y => simp [compare?, ← Std.OrientedCmp.eq_swap]
    | _ => exact hnum
  | string x =>
    cases b with
    | string y =>
      rw [compare?, compare?, Bool.or_comm, apply_ite (Option.map Ordering.swap), Option.map_some,
        ← Std.OrientedCmp.eq_swap]
      rfl
    | _ => exact hnum
  | _ => cases b <;> exact hnum

namespace Comparison

/-- The order is one that the comparison asks for.  Equality asks for none. -/
def accepts : Comparison → Ordering → Bool
  | .lt, .lt | .lte, .lt | .lte, .eq | .gt, .gt | .gte, .gt | .gte, .eq => true
  | _, _ => false

/-- The comparison of two values that are not null.  An order between values that are not comparable
is null; an order with not-a-number is false. -/
def truth (op : Comparison) (a b : Obj) : Truth :=
  match op with
  | .eq => some (a.looselyEqual b)
  | .neq => some (!a.looselyEqual b)
  | _ => if a.comparable b then some ((a.compare? b).any op.accepts) else none

lemma accepts_flipped (op : Comparison) (o : Ordering) :
    op.flipped.accepts o.swap = op.accepts o := by
  cases op <;> cases o <;> rfl

lemma truth_flipped (op : Comparison) {a b : Obj} (h : b.looselyEqual a = a.looselyEqual b) :
    op.flipped.truth b a = op.truth a b := by
  have horder : (b.compare? a).any op.flipped.accepts = (a.compare? b).any op.accepts := by
    rw [Obj.compare?_swap, Option.any_map]
    exact congrArg (fun p => (a.compare? b).any p) (funext (accepts_flipped op))
  cases op with
  | eq | neq => simp [truth, flipped, h]
  | lt | lte | gt | gte =>
    exact congrArg₂ (fun c o => if c = true then some o else none) (Obj.comparable_comm a b) horder

end Comparison

/-- How a text begins, ends or continues. -/
def StringTest.check : StringTest → String → String → Bool
  | .startsWith, text, other => beginsWith other text
  | .endsWith, text, other => endsIn text other
  | .contains, text, other => mentions text other

/-- The test of a value that is not null.  Only texts can be tested. -/
def StringTest.truth (test : StringTest) (other : String) : Obj → Truth
  | .string text => some (test.check text other)
  | _ => none

/-! ## Conditions -/

/-- The element that a variable stands for, if it is not null. -/
def Traverser.element? (g : Graph) (row : Traverser) (var : String) : Option Element :=
  (row.label? var).bind g.element?

namespace Expr

variable (g : Graph) (row : Traverser)

/-- The value of a literal or of the property of a variable, if it is not null. -/
def operandValue : Expr → Option Obj
  | literal .null => none
  | literal l => some l.obj
  | property (var v) key => (row.element? g v).bind fun element => Table.get? element.properties key
  | _ => none

/-- Whether a condition is true, false or null at a row. -/
def truth : Expr → Truth
  | literal (.bool b) => some b
  | not e => (e.truth).not
  | and l r => (l.truth).and r.truth
  | or l r => (l.truth).or r.truth
  | compare op l r => do op.truth (← l.operandValue g row) (← r.operandValue g row)
  | stringMatch test e (literal (.string other)) => do test.truth other (← e.operandValue g row)
  | isNull e => some (e.operandValue g row).isNone
  | isNotNull e => some (e.operandValue g row).isSome
  | hasLabels v labels =>
    labels.foldr (fun l rest => Truth.and ((row.element? g v).map (·.label == l)) rest) (some true)
  | _ => none

/-- Whether a condition holds if each of its tests holds where it is true, and only there. -/
def holds : Expr → Bool
  | not e => !e.holds
  | and l r => l.holds && r.holds
  | or l r => l.holds || r.holds
  | e => e.truth g row == some true

/-- There is no negation among the connectives of a condition. -/
def negationFree : Expr → Bool
  | not _ => false
  | and l r | or l r => l.negationFree && r.negationFree
  | _ => true

variable {g row}

lemma holds_of_truth : ∀ {e : Expr} {r : Bool}, e.truth g row = some r → e.holds g row = r
  | not _, _, h => Truth.not_of_le (fun _ => holds_of_truth) h
  | and _ _, _, h => Truth.and_of_le (fun _ => holds_of_truth) (fun _ => holds_of_truth) h
  | or _ _, _, h => Truth.or_of_le (fun _ => holds_of_truth) (fun _ => holds_of_truth) h
  | literal _, _, h | parameter _, _, h | var _, _, h | property _ _, _, h | list _, _, h
  | map _, _, h
  | xor _ _, _, h | compare _ _ _, _, h | stringMatch _ _ _, _, h | isNull _, _, h
  | isNotNull _, _, h
  | member _ _, _, h | hasLabels _ _, _, h | pattern _, _, h | arithmetic _ _ _, _, h
  | call _ _ _, _, h
  | countStar, _, h => by simp [holds, h]

lemma holds_iff_truth :
    ∀ {e : Expr}, e.negationFree = true → (e.holds g row = true ↔ e.truth g row = some true)
  | and l r, h => by
    rw [negationFree, Bool.and_eq_true] at h
    rw [holds, Bool.and_eq_true, holds_iff_truth h.1, holds_iff_truth h.2, truth,
      Truth.and_eq_true_iff]
  | or l r, h => by
    rw [negationFree, Bool.and_eq_true] at h
    rw [holds, Bool.or_eq_true, holds_iff_truth h.1, holds_iff_truth h.2, truth,
      Truth.or_eq_true_iff]
  | literal _, _ | parameter _, _ | var _, _ | property _ _, _ | list _, _ | map _, _
  | xor _ _, _ | compare _ _ _, _ | stringMatch _ _ _, _ | isNull _, _ | isNotNull _, _
  | member _ _, _ | hasLabels _ _, _ | pattern _, _ | arithmetic _ _ _, _ | call _ _ _, _
  | countStar, _ => by simp [holds]

end Expr

end CypherGremlin
