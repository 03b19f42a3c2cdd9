import CypherGremlin.Proofs.Delivers
import CypherGremlin.Proofs.Statement.Lowered
import CypherGremlin.Statement.Expression

/-!
# What an expression is lowered to

Lowering an expression is a computation that takes numbers and can refuse.  What it gives where it
succeeds is a relation between the expression and the traversal, with one rule for each form of
expression and of goal, and proofs about the traversals of expressions can be inductions on it.

* `Expr.Lowers scope goal e t` is the relation.
* `Expr.traced` says that every traversal of an expression stands in it, that numbers are only ever
  taken upwards, and that lowering an expression never reports a label.
-/

namespace CypherGremlin

variable {v : String} {t : Traversal} {α β : Type} {binding : Binding} {bs : List β} {as : List α}
  {e : Expr} {mode : Mode}

open CypherGremlin.Expr List Literal Traversal

/-! ## Names and numbers -/

lemma delivers_checkName (text context : String) : Delivers (checkName text context) fun _ =>
    Plain text := by
  refine .ite (fun _ => .error rfl) fun h => .ok ?_
  simpa [Plain] using h

/-- The next number, for a label. -/
lemma deliversFrom_fresh (token : UInt32 → Token) (n : Nat) :
    DeliversFrom n (Supply.fresh token) fun l n' =>
    l = .token (token n.toUInt32) ∧ n' = n + 1 := .ok ⟨rfl, rfl⟩

/-! ## Variables -/

lemma ElementKind.tag_eq (kind : ElementKind) :
    (∃ token, kind.tag = .elementTag token) ∨ ∃ token, kind.tag = .relationshipTag token := by
  cases kind with
  | node => exact .inl ⟨_, rfl⟩
  | relationship => exact .inr ⟨_, rfl⟩

lemma PathElement.tag_eq (position : Nat) (element : PathElement) :
    (∃ token, element.tag position = .elementTag token) ∨ ∃ token, element.tag position =
      .relationshipTag token := by
  rw [PathElement.tag.eq_def]
  split
  · exact .inl ⟨_, rfl⟩
  · exact .inr ⟨_, rfl⟩
  · exact element.kind.tag_eq

namespace Scope

variable (scope : Scope)

lemma delivers_lookup (v context : String) :
    Delivers (scope.lookup v context) fun binding => scope.binding? v = some binding := by
  rw [Scope.lookup]
  split
  · exact .ok ‹_›
  · exact .error rfl

lemma delivers_lookupPath (v context : String) :
    Delivers (scope.lookupPath v context) fun shape => Table.get? scope.paths v = some shape := by
  rw [Scope.lookupPath]
  split
  · exact .ok ‹_›
  · exact .error rfl

/-- The variable holds a path of the given shape. -/
structure HoldsPath (v : String) (shape : PathShape) : Prop where
  bound : ∃ binding, scope.binding? v = some binding ∧ binding.kind = .path
  known : Table.get? scope.paths v = some shape

variable {scope} in
lemma HoldsPath.binds {shape : PathShape} (h : scope.HoldsPath v shape) : scope.binds v = true := by
  obtain ⟨binding, hbind, -⟩ := h.bound
  exact Table.has_iff.2 (Table.mem_keys_of_get? hbind)

/-- The traversal reads the variable in the given mode: the label, with a tag if an element is
handed back, or the list of the elements of a path. -/
inductive Recalls (v : String) : Mode → Traversal → Prop
  | label {binding : Binding} (mode : Mode) (bound : scope.binding? v = some binding)
    (kind : binding.kind ≠ .path) : Recalls v mode [.select [.named v]]
  | tagged {binding : Binding} (element : ElementKind) (bound : scope.binding? v = some binding)
    (kind : binding.kind ≠ .path) : Recalls v .result [.select [.named v],
    .unlessNull [element.tag]]
  | path {shape : PathShape} (mode : Mode) (path : scope.HoldsPath v shape) : Recalls v mode
    (shape.read mode)

lemma delivers_recalls (v : String) (mode : Mode) :
    Delivers (scope.read v mode) (scope.Recalls v mode) := by
  refine (scope.delivers_lookup v _).bind fun binding hbind => ?_
  split
  case h_3 hkind =>
    exact (scope.delivers_lookupPath v _).bind fun shape hshape =>
      .pure (.path _ ⟨⟨binding, hbind, hkind⟩, hshape⟩)
  case h_4 => exact .pure (.label _ hbind (by simp_all))
  all_goals exact .pure (.tagged _ hbind (by simp_all))

variable {scope} in
lemma Recalls.bound (h : scope.Recalls v mode t) : scope.binds v = true := by
  cases h with
  | label _ hbound | tagged _ hbound => exact Table.has_iff.2 (Table.mem_keys_of_get? hbound)
  | path _ hpath => exact hpath.binds

variable {scope} in
/-- Reading a variable that holds no path, in the place of a value that is used. -/
lemma Recalls.eq_select (h : scope.Recalls v .raw t)
    (hbind : scope.binding? v = some binding) (hkind : binding.kind ≠ .path) :
    t = [.select [.named v]] := by
  cases h with
  | label => rfl
  | path _ hpath =>
    obtain ⟨found, hfound, hpath⟩ := hpath.bound
    obtain rfl := Option.some.inj (hfound.symm.trans hbind)
    exact absurd hpath hkind

variable {scope} in
lemma Recalls.eq_read (h : scope.Recalls v mode t)
    (hbind : scope.binding? v = some binding) (hkind : binding.kind = .path) :
    ∃ shape, scope.HoldsPath v shape ∧ t = shape.read mode := by
  cases h with
  | label _ hfound hne | tagged _ hfound hne =>
    obtain rfl := Option.some.inj (hfound.symm.trans hbind)
    exact absurd hkind hne
  | path _ hpath => exact ⟨_, hpath, rfl⟩

lemma delivers_directAccess? (goal : Goal) (base : Expr) (key : String) :
    Delivers (scope.directAccess? goal base key) fun t? => ∀ t ∈ t?, ∃ v binding isMap, goal =
      .operand ∧ base = .var v ∧
      scope.binding? v = some binding ∧ Plain key ∧
      t = binding.select v ++ [.access isMap key] := by
  rw [Scope.directAccess?.eq_def]
  split
  · rename_i v
    refine (scope.delivers_lookup v _).bind fun binding hv =>
      (delivers_checkName key _).bind fun _ hkey => ?_
    have hread (isMap : Bool) : ∀ t ∈ some (binding.select v ++ [.access isMap key]),
        ∃ w binding isMap,
        Goal.operand = .operand ∧ var v = .var w ∧ scope.binding? w = some binding ∧ Plain key ∧
          t = binding.select w ++ [.access isMap key] := by
      rintro _ ⟨⟩
      exact ⟨v, binding, isMap, rfl, rfl, hv, hkey, rfl⟩
    split
    case h_1 | h_2 | h_3 => exact .pure (hread _)
    all_goals exact .pure (by simp)
  · exact .ok (by simp)

lemma delivers_propertyStep (base : Expr) (key : String) :
    Delivers (scope.propertyStep base key) fun s =>
    Plain key ∧ ∃ isMap, s = .unlessNull [.coalesce [[.access isMap key], null]] := by
  refine (delivers_checkName key _).bind fun _ hkey => ?_
  split
  · exact (scope.delivers_lookup _ _).bind fun _ _ => .pure ⟨hkey, _, rfl⟩
  all_goals exact .pure ⟨hkey, _, rfl⟩

lemma delivers_pathArgument (name : String) (arg : Expr) :
    Delivers (scope.pathArgument name arg) fun shape => ∃ v, arg = .var v ∧
      scope.HoldsPath v shape := by
  cases arg with
  | var v =>
    refine (scope.delivers_lookup v _).bind fun binding hbind => .ite (fun hkind => ?_) fun _ =>
      .throw rfl
    refine (scope.delivers_lookupPath v _).mono fun shape hshape =>
      ⟨v, rfl, ⟨binding, hbind, ?_⟩, hshape⟩
    simpa using hkind
  | _ => exact .throw rfl

lemma delivers_isMap (e : Expr) : Delivers (e.isMap scope) fun _ => True := by
  fun_cases isMap scope e with
  | case1 v => exact (scope.delivers_lookup v _).bind fun _ _ => .pure trivial
  | case2 | case3 | case4 => exact .ok trivial

end Scope

/-! ## Functions -/

/-- What functions of one argument do to a value that is not null. -/
inductive Function.Body : Traversal → Prop
  | id : Body [.id]
  | idTag : Body [.idTag [.id]]
  | labels : Body [.label, .fold]
  | type : Body [.label]
  | entries : Body [.selectColumn .keys]
  | keys : Body [.properties [], .key, .dedup, .fold]
  | startNode : Body [.outV]
  | endNode : Body [.inV]
  | startTag : Body [.outV, .nodeTag]
  | endTag : Body [.inV, .nodeTag]
  | custom (f : CustomFunction) : Body [.apply f]

lemma Function.delivers_body (f : Function) (scope : Scope) (mode : Mode) (name : String)
    (arg : Expr) : Delivers (f.body scope mode name arg) Function.Body := by
  rw [Function.body.eq_def]
  split
  · cases mode with
    | raw => exact .ok .id
    | result => exact .ok .idTag
  · exact .ok .labels
  · exact .ok .type
  · exact (scope.delivers_isMap arg).bind fun _ _ => .ite (fun _ => .pure .entries) fun _ =>
      .pure .keys
  · cases mode with
    | raw => exact .ok .startNode
    | result => exact .ok .startTag
  · cases mode with
    | raw => exact .ok .endNode
    | result => exact .ok .endTag
  · split
    · exact .ok (.custom _)
    · exact .error rfl

/-- A range is the list of its integers, or an error when the program runs. -/
inductive IsRange : Traversal → Prop
  | integers (is : List Int64) : IsRange [.constant (.list (is.map .int))]
  | invalid : IsRange [.constant (.string EngineFault.invalidRangeName), .apply .raise]

lemma delivers_result (operation : String) (exact : Int) (arithmetic : WordArithmetic) :
    Delivers (arithmetic.result operation exact) fun _ => True := by
  cases arithmetic with
  | wrapping => exact .ok trivial
  | checked => exact .ite (fun _ => .ok trivial) fun _ => .error rfl

lemma delivers_rangeTraversal (arithmetic : WordArithmetic) (start stop width : Int64) :
    Delivers (rangeTraversal arithmetic start stop width) IsRange := by
  rw [rangeTraversal]
  split
  · have hmember (i : Nat) : Delivers (rangeMember arithmetic start width i) fun _ => True :=
      (delivers_result _ _ _).bind fun _ _ => delivers_result _ _ _
    exact (Delivers.mapM fun i _ => hmember i).bind fun members _ => .pure (.integers members)
  · exact .pure .invalid

/-- What can be read item by item has a property if every item that can be read has it. -/
lemma forall_mem_of_mapM_eq_some {f : α → Option β} {P : α → Prop}
    (hf : ∀ a b, f a = some b → P a) (h : as.mapM f = some bs) : ∀ a ∈ as, P a := by
  induction as generalizing bs with
  | nil => simp
  | cons a rest ih =>
    simp only [mapM_cons, Option.bind_eq_bind, Option.bind_eq_some_iff] at h
    obtain ⟨b, hb, others, hothers, -⟩ := h
    exact forall_mem_cons.2 ⟨hf a b hb, ih hothers⟩

lemma delivers_rangeOf (arithmetic : WordArithmetic) (args : List Expr) :
    Delivers (rangeOf arithmetic args) fun t => (∀ e ∈ args, ∃ l, e = .literal l) ∧ IsRange t := by
  rw [rangeOf]
  split
  case h_1 h | h_2 h =>
    refine (delivers_rangeTraversal _ _ _ _).mono fun t ht =>
      ⟨forall_mem_of_mapM_eq_some (fun e i hi => ?_) h, ht⟩
    cases e with
    | literal l => exact ⟨l, rfl⟩
    | _ => simp at hi
  case h_3 | h_4 => exact .error rfl

lemma Expr.conjuncts_eq (e : Expr) (t : Traversal) :
    e.conjuncts t = [t] ∨ t = [.and (e.conjuncts t)] := by
  rw [conjuncts.eq_def]
  split
  · exact .inr rfl
  · exact .inl rfl

lemma Expr.disjuncts_eq (e : Expr) (t : Traversal) :
    e.disjuncts t = [t] ∨ t = [.or (e.disjuncts t)] := by
  rw [disjuncts.eq_def]
  split
  · exact .inr rfl
  · exact .inl rfl

/-! ## Constants -/

/-- The expression is a constant of the given value. -/
inductive Expr.Constant : Expr → Value → Prop
  | literal {l : Literal} {v : Value} (value : l.toValue = .ok v) : Constant (.literal l) v
  | parameter {name : String} (plain : Plain name) : Constant (.parameter name) (.parameter name)

/-- The expression is a list of constants, or a parameter in the place of one. -/
inductive Expr.Candidates : Expr → List Value → Prop
  | literal {ls : List Literal} {vs : List Value} (values : toValues ls = .ok vs) :
    Candidates (.literal (.list ls)) vs
  | list {ls : List Literal} {vs : List Value} (values : toValues ls = .ok vs) :
    Candidates (.list (ls.map .literal)) vs
  | parameter {name : String} (plain : Plain name) : Candidates (.parameter name) [.parameter name]

lemma eq_map_of_literalItems? {items : List Expr} {ls : List Literal}
    (h : literalItems? items = some ls) : items = ls.map .literal := by
  rw [literalItems?] at h
  split at h
  · simp at h
  · clear * - h
    induction items generalizing ls with
    | nil =>
      obtain rfl : ls = [] := by simpa using h.symm
      rfl
    | cons e rest ih =>
      simp only [mapM_cons, Option.bind_eq_bind, Option.bind_eq_some_iff] at h
      obtain ⟨l, hl, others, hothers, heq⟩ := h
      obtain rfl : l :: others = ls := by simpa using heq
      cases e with
      | literal l' =>
        obtain rfl : l' = l := by simpa using hl
        rw [map_cons, ← ih hothers]
      | _ => simp at hl

section

variable {T : Sources}

mutual

theorem Literal.delivers_toValue : ∀ l : Literal, Delivers l.toValue (Value.Sound T)
  | .null => .ok .null
  | .bool b => .ok (.bool b)
  | .int i => .ok (.int i)
  | .float _ => .ite (fun h => .ok (.float h)) fun _ => .error rfl
  | .string s => (delivers_checkName s _).bind fun _ hs => .pure (.string hs)
  | .list items => (delivers_toValues items).bind fun _ hvs => .pure (.list hvs)
  | .map entries => (delivers_toEntryValues entries).bind fun _ hvs => .pure (.map hvs)

theorem Literal.delivers_toValues : ∀ ls : List Literal, Delivers (toValues ls) fun vs =>
    ∀ v ∈ vs, v.Sound T
  | [] => .ok (by simp)
  | l :: rest => (delivers_toValue l).bind fun v hv =>
      (delivers_toValues rest).bind fun vs hvs => .pure (forall_mem_cons.2 ⟨hv, hvs⟩)

theorem Literal.delivers_toEntryValues : ∀ ls : List (String × Literal),
    Delivers (toEntryValues ls) fun vs => ∀ entry ∈ vs, Plain entry.1 ∧ entry.2.Sound T
  | [] => .ok (by simp)
  | (k, l) :: rest =>
    (delivers_checkName k _).bind fun _ hk => (delivers_toValue l).bind fun v hv =>
      (delivers_toEntryValues rest).bind fun vs hvs => .pure (forall_mem_cons.2 ⟨⟨hk, hv⟩, hvs⟩)

end

end

/-- What can come into a traversal from anywhere. -/
def Sources.any : Sources := ⟨fun _ => True, fun _ => True, fun _ => True⟩

/-- What a literal is lowered to, and nothing else is known of it. -/
lemma Literal.delivers_eq (l : Literal) : Delivers l.toValue (l.toValue = .ok ·) :=
  (delivers_toValue (T := .any) l).eq

lemma Literal.delivers_values_eq (ls : List Literal) :
    Delivers (toValues ls) (toValues ls = .ok ·) :=
  (delivers_toValues (T := .any) ls).eq

lemma delivers_parameterValue (name : String) :
    Delivers (parameterValue name) fun v => Plain name ∧ v = .parameter name :=
  (delivers_checkName name _).bind fun _ hname => .pure ⟨hname, rfl⟩

namespace Expr

variable (e : Expr)

lemma delivers_constant? : Delivers e.constant? fun v? => ∀ v, v? = some v ↔ e.Constant v := by
  cases e with
  | literal l =>
    refine l.delivers_eq.bind fun v hv => .pure fun w => ⟨by rintro ⟨⟩; exact .literal hv, ?_⟩
    rintro ⟨hw⟩
    exact congrArg some (Except.ok.inj (hv.symm.trans hw))
  | parameter name =>
    refine (delivers_parameterValue name).bind fun v hv => .pure fun w => ⟨?_, ?_⟩
    · rintro ⟨⟩
      exact hv.2 ▸ .parameter hv.1
    · rintro ⟨⟩
      exact congrArg some hv.2
  | _ => exact .ok fun w => ⟨by simp, fun h => by cases h⟩

lemma delivers_propertyConstant (key : String) :
    Delivers (e.propertyConstant key) fun v => Plain key ∧ e.Constant v := by
  refine (delivers_checkName key _).bind fun _ hkey => e.delivers_constant?.bind fun v? hv => ?_
  cases v? with
  | none => exact .throw rfl
  | some v => exact .pure ⟨hkey, (hv v).1 rfl⟩

lemma delivers_stringOperand : Delivers e.stringOperand e.Constant := by
  rw [stringOperand.eq_def]
  split
  · exact (delivers_eq _).mono fun v hv => .literal hv
  · exact (delivers_parameterValue _).mono fun v hv => hv.2 ▸ .parameter hv.1
  · exact .error rfl

lemma delivers_candidates : Delivers e.candidates e.Candidates := by
  rw [candidates.eq_def]
  split
  · exact (delivers_values_eq _).mono fun v hv => .literal hv
  · split
    · rename_i ls hitems
      exact eq_map_of_literalItems? hitems ▸ (delivers_values_eq ls).mono fun v hv => .list hv
    · exact .error rfl
  · refine (delivers_parameterValue _).bind fun v hv => .pure ?_
    exact hv.2 ▸ .parameter hv.1
  · exact .error rfl

end Expr

/-! ## Patterns -/

/-- The steps test the properties against constants. -/
def PropertyTests (properties : List (String × Expr)) (t : Traversal) : Prop :=
  List.Forall₂ (fun entry s => Plain entry.1 ∧ ∃ v, entry.2.Constant v ∧ s = .has entry.1 (.eq v))
    properties t

lemma delivers_propertyTests (properties : List (String × Expr)) :
    Delivers (propertyTests properties) (PropertyTests properties) :=
  Delivers.mapM fun entry _ => (entry.2.delivers_propertyConstant entry.1).bind fun v hv =>
    .pure ⟨hv.1, v, hv.2, rfl⟩

/-- The steps that test the labels of an element. -/
def labelSteps (labels : List String) : Traversal := labels.map fun l => .hasLabel [l]

lemma delivers_labelTests (labels : List String) :
    Delivers (labelTests labels) fun t => (∀ l ∈ labels, Plain l) ∧ t = labelSteps labels := by
  have htest (l : String) : Delivers (do checkName l "node label"; return Step.hasLabel [l])
      fun s =>
      Plain l ∧ Step.hasLabel [l] = s := (delivers_checkName l _).bind fun _ hl => .pure ⟨hl, rfl⟩
  refine (Delivers.mapM fun l _ => htest l).mono fun t ht => ⟨fun l hl => ?_, ?_⟩
  · obtain ⟨_, -, hplain, -⟩ := exists_mem_of_forall₂ ht.flip l hl
    exact hplain
  · have heq : List.Forall₂ Eq (labelSteps labels) t :=
      forall₂_map_left_iff.2 (ht.imp fun l s hs => hs.2)
    exact (forall₂_eq_eq_eq ▸ heq : labelSteps labels = t).symm

/-- The steps test whether a node fits its pattern. -/
inductive NodePattern.TestedBy (node : NodePattern) : Traversal → Prop
  | intro {properties : Traversal} (plain : ∀ l ∈ node.labels, Plain l)
    (tests : PropertyTests node.properties properties) :
    TestedBy node (labelSteps node.labels ++ properties)

lemma NodePattern.delivers_tests (node : NodePattern) :
    Delivers (NodePattern.tests node) (NodePattern.TestedBy node) := by
  refine (delivers_labelTests node.labels).bind ?_
  rintro _ ⟨hplain, rfl⟩
  exact (delivers_propertyTests node.properties).bind fun _ htests => .pure (.intro hplain htests)

/-- The steps test whether a node of a hop is the one that its variable holds. -/
inductive Scope.Joins (scope : Scope) (var? : Option String) : Traversal → Prop
  | none (var : var? = none) : Joins scope var? []
  | some {v : String} (var : var? = some v) (bound : scope.binds v = true) :
    Joins scope var? [.whereLabel .eq (.named v)]

/-- The steps follow a hop of a pattern that is a test. -/
inductive Hop.TestedBy (scope : Scope) (hop : Hop) : Traversal → Prop
  | intro {relTests joined nodeTests : Traversal} (anonymous : hop.rel.var = none)
    (rel : PropertyTests hop.rel.properties relTests) (join : scope.Joins hop.node.var joined)
    (node : NodePattern.TestedBy hop.node nodeTests) :
    TestedBy scope hop ([hop.rel.direction.edgeStep hop.rel.types] ++ relTests ++
    [hop.rel.direction.nodeStep] ++ joined ++ nodeTests)

lemma delivers_checkLength (rel : RelPattern) :
    Delivers (RelPattern.checkLength rel) fun _ => True :=
  .ite (fun _ => .error rfl) fun _ => .ok trivial

lemma Hop.delivers_testSteps (scope : Scope) (pattern : Pattern) (hop : Hop) :
    Delivers (Hop.testSteps scope pattern hop) (Hop.TestedBy scope hop) := by
  refine (delivers_checkLength _).bind fun _ _ => .ite (fun _ => .throw_bind rfl) fun hvar => ?_
  refine (delivers_propertyTests hop.rel.properties).bind fun relTests hrel => ?_
  have hend {joined : Traversal} (hjoin : scope.Joins hop.node.var joined) : Delivers (do
      let nodeTests ← NodePattern.tests hop.node
      return [hop.rel.direction.edgeStep hop.rel.types] ++ relTests ++
        [hop.rel.direction.nodeStep] ++ joined ++ nodeTests) (Hop.TestedBy scope hop) :=
    (NodePattern.delivers_tests hop.node).bind fun _ hnode =>
      .pure (.intro (by simpa using hvar) hrel hjoin hnode)
  split
  · exact hend (.none ‹_›)
  · exact .ite (fun hbinds => hend (.some ‹_› hbinds)) fun _ => .throw_bind rfl

inductive Pattern.TestedBy (scope : Scope) (p : Pattern) : Traversal → Prop
  | intro {v : String} {start : Traversal} {hops : List Traversal} (var : p.start.var = some v)
    (bound : scope.binds v = true) (tests : NodePattern.TestedBy p.start start)
    (follows : List.Forall₂ (Hop.TestedBy scope) p.hops hops) :
    TestedBy scope p (.select [.named v] :: start ++ hops.flatten)

lemma Pattern.delivers_testTraversal (scope : Scope) (p : Pattern) :
    Delivers (Pattern.testTraversal scope p) (Pattern.TestedBy scope p) := by
  rw [Pattern.testTraversal]
  split
  · exact .throw rfl
  · rename_i v hvar
    obtain ⟨hvar, hbinds⟩ := Option.filter_eq_some_iff.1 hvar
    refine (NodePattern.delivers_tests p.start).bind fun start hstart => ?_
    exact (Delivers.mapM fun hop _ => Hop.delivers_testSteps scope p hop).bind fun hops hhops =>
      .pure (.intro hvar hbinds hstart hhops)

/-! ## Steps of patterns -/

/-- The step follows relationships or tests what it meets, as the steps of a pattern that is a test
do. -/
def Step.isProbe : Step → Bool
  | .outE _ | .inE _ | .bothE _ | .inV | .outV | .otherV | .has _ _ | .hasLabel _
    | .whereLabel _ _ => true
  | _ => false

lemma Direction.isProbe_edgeStep (d : Direction) (types : List String) :
    (d.edgeStep types).isProbe = true := by
  cases d <;> rfl

lemma Direction.isProbe_nodeStep (d : Direction) : d.nodeStep.isProbe = true := by cases d <;> rfl

lemma PropertyTests.isProbe {properties : List (String × Expr)} (h : PropertyTests properties t) :
    ∀ s ∈ t, s.isProbe = true := by
  intro s hs
  obtain ⟨_, -, -, v, -, rfl⟩ := exists_mem_of_forall₂ h s hs
  rfl

lemma isProbe_labelSteps (labels : List String) : ∀ s ∈ labelSteps labels, s.isProbe = true :=
  forall_mem_map.2 fun _ _ => rfl

lemma NodePattern.TestedBy.isProbe {node : NodePattern} (h : NodePattern.TestedBy node t) :
    ∀ s ∈ t, s.isProbe = true := by
  obtain ⟨-, htests⟩ := h
  exact forall_mem_append.2 ⟨isProbe_labelSteps _, htests.isProbe⟩

/-- The traversal of an expression that is an operand of a test. -/
def Traversal.IsOperand (t : Traversal) : Prop :=
  ∃ (e : Expr) (scope : Scope) (n n' : Nat), e.lower scope .operand n = .ok (t, n')

/-- The traversal is what the expression is lowered to in the scope, for the goal.  The numbers of
labels for intermediate results are left open. -/
inductive Expr.Lowers (scope : Scope) : Goal → Expr → Traversal → Prop
  | always : Lowers scope .filter (.literal (.bool true)) Traversal.always
  | never {l : Literal} (untrue : l = .bool false ∨ l = .null) : Lowers scope .filter (.literal l)
    Traversal.never
  | literal (goal : Goal) {l : Literal} {v : Value} (constant : l.toValue = .ok v) :
    Lowers scope goal (.literal l) (goal.ofValue [.constant v])
  | parameter (goal : Goal) {name : String} (plain : Plain name) :
    Lowers scope goal (.parameter name) (goal.ofValue [.constant (.parameter name)])
  | var (goal : Goal) {v : String} {t : Traversal} (read : scope.Recalls v goal.mode t)
    (found : scope.read v goal.mode = .ok t) : Lowers scope goal (.var v) (goal.ofValue t)
  | direct {v key : String} {binding : Binding} (isMap : Bool)
    (bound : scope.binding? v = some binding)
    (plain : Plain key) : Lowers scope .operand (.property (.var v) key)
    (binding.select v ++ [.access isMap key])
  | property (goal : Goal) {base : Expr} {key : String} {s : Step} {t : Traversal}
    (step : scope.propertyStep base key = .ok s) (value : Lowers scope (.value .raw) base t) :
    Lowers scope goal (.property base key) (goal.ofValue (t ++ [s]))
  | constants (goal : Goal) {ls : List Literal} {vs : List Value} (values : toValues ls = .ok vs) :
    Lowers scope goal (.list (ls.map .literal)) (goal.ofValue [.constant (.list vs)])
  | list (goal : Goal) {items : List Expr} {ts : List Traversal} (nonempty : items ≠ [])
    (length : items.length = ts.length)
    (values : ∀ p ∈ items.zip ts, Lowers scope (.value goal.mode) p.1 p.2) :
    Lowers scope goal (.list items) (goal.ofValue [.union ts, .fold])
  | emptyMap (goal : Goal) : Lowers scope goal (.map []) (goal.ofValue [.constant (.map [])])
  | map (goal : Goal) {entries : List (String × Expr)} {ts : List (Label × Traversal)}
    (nonempty : entries ≠ [])
    (keys : ts.map Prod.fst = entries.map fun entry => .named entry.1)
    (plain : ∀ entry ∈ entries, Plain entry.1)
    (values : ∀ p ∈ entries.zip ts, Lowers scope (.value goal.mode) p.1.2 p.2.2) :
    Lowers scope goal (.map entries) (goal.ofValue [.project ts])
  | not (goal : Goal) {inner : Expr} {t : Traversal} (test : Lowers scope .filter inner t) :
    Lowers scope goal (.not inner) (goal.ofTest [.not t])
  | and (goal : Goal) {l r : Expr} {left right : Traversal} (testLeft : Lowers scope .filter l left)
    (testRight : Lowers scope .filter r right) :
    Lowers scope goal (.and l r) (goal.ofTest [.and (l.conjuncts left ++ r.conjuncts right)])
  | or (goal : Goal) {l r : Expr} {left right : Traversal} (testLeft : Lowers scope .filter l left)
    (testRight : Lowers scope .filter r right) :
    Lowers scope goal (.or l r) (goal.ofTest [.or (l.disjuncts left ++ r.disjuncts right)])
  | compareNull (goal : Goal) (op : Comparison) {l r : Expr}
    (null : (l.isNullLiteral || r.isNullLiteral) = true) :
    Lowers scope goal (.compare op l r) (goal.ofTest Traversal.never)
  | compareRight (goal : Goal) (op : Comparison) {l r : Expr} {v : Value} {left : Traversal}
    (null : (l.isNullLiteral || r.isNullLiteral) = false) (constant : r.Constant v)
    (operand : Lowers scope .operand l left) :
    Lowers scope goal (.compare op l r) (goal.ofTest (left ++ [.is (op.predicate v)]))
  | compareLeft (goal : Goal) (op : Comparison) {l r : Expr} {v : Value} {right : Traversal}
    (null : (l.isNullLiteral || r.isNullLiteral) = false) (constant : l.Constant v)
    (operand : Lowers scope .operand r right) :
    Lowers scope goal (.compare op l r) (goal.ofTest (right ++ [.is (op.flipped.predicate v)]))
  | compare (goal : Goal) (op : Comparison) (n : UInt32) {l r : Expr} {left right : Traversal}
    (null : (l.isNullLiteral || r.isNullLiteral) = false)
    (operandRight : Lowers scope .operand r right)
    (operandLeft : Lowers scope .operand l left) (isRight : right.IsOperand)
    (isLeft : left.IsOperand) :
    Lowers scope goal (.compare op l r)
    (goal.ofTest (right ++ [.as (.token (.generated n))] ++ left ++
      [.whereLabel op.labelled (.token (.generated n))]))
  | stringMatch (goal : Goal) (test : StringTest) {l r : Expr} {v : Value} {left : Traversal}
    (argument : r.Constant v) (operand : Lowers scope .operand l left) :
    Lowers scope goal (.stringMatch test l r)
    (goal.ofTest (left ++ [.is (.custom test.predicate (some v))]))
  | isNull (goal : Goal) {inner : Expr} {t : Traversal}
    (value : Lowers scope (.value .raw) inner t) :
    Lowers scope goal (.isNull inner) (goal.ofTest (t ++ [.isNull]))
  | isNotNull (goal : Goal) {inner : Expr} {t : Traversal}
    (value : Lowers scope (.value .raw) inner t) :
    Lowers scope goal (.isNotNull inner) (goal.ofTest (t ++ [.notNull]))
  | member (goal : Goal) {item group : Expr} {vs : List Value} {t : Traversal}
    (candidates : group.Candidates vs) (operand : Lowers scope .operand item t) :
    Lowers scope goal (.member item group) (goal.ofTest (t ++ [.is (.within vs)]))
  | hasLabels (goal : Goal) {v : String} {labels : List String} (bound : scope.binds v = true)
    (plain : ∀ l ∈ labels, Plain l) :
    Lowers scope goal (.hasLabels v labels) (goal.ofTest (.select [.named v] :: labelSteps labels))
  | pattern (goal : Goal) {p : Pattern} {t : Traversal} (test : Pattern.TestedBy scope p t)
    (run : Pattern.testTraversal scope p = .ok t) :
    Lowers scope goal (.pattern p) (goal.ofTest t)
  | coalesce (goal : Goal) {name : String} {distinct : Bool} {args : List Expr}
    {ts : List Traversal}
    (function : Function.ofName name = .coalesce) (length : args.length = ts.length)
    (values : ∀ p ∈ args.zip ts, Lowers scope (.value goal.mode) p.1 p.2) :
    Lowers scope goal (.call name distinct args)
      (goal.ofValue [.coalesce (ts.map (· ++ [.notNull]) ++ [Traversal.null])])
  | range (goal : Goal) {name : String} {distinct : Bool} {args : List Expr} {t : Traversal}
    (function : Function.ofName name = .range) (literals : ∀ e ∈ args, ∃ l, e = .literal l)
    (range : IsRange t) : Lowers scope goal (.call name distinct args) (goal.ofValue t)
  | pathPart (goal : Goal) {name v : String} {distinct : Bool} {shape : PathShape}
    (kind : ElementKind)
    (function : Function.ofName name = .nodes ∨ Function.ofName name = .relationships)
    (path : scope.HoldsPath v shape) :
    Lowers scope goal (.call name distinct [.var v]) (goal.ofValue (shape.readKind goal.mode kind))
  | existence (goal : Goal) {name : String} {distinct : Bool} {base : Expr} {key : String}
    {isMap : Bool} {t : Traversal}
    (function : Function.ofName name = .existence) (plain : Plain key)
    (map : base.isMap scope = .ok isMap) (value : Lowers scope (.value .raw) base t) :
    Lowers scope goal (.call name distinct [.property base key])
    (goal.ofValue (t ++ [.hasAccess isMap key]))
  | pathLength (goal : Goal) {name v : String} {distinct : Bool} {shape : PathShape}
    (function : Function.ofName name = .length) (path : scope.HoldsPath v shape) :
    Lowers scope goal (.call name distinct [.var v])
    (goal.ofValue [.constant (.int (Int64.ofNat shape.hops))])
  | function (goal : Goal) {name : String} {distinct : Bool} {arg : Expr} {body t : Traversal}
    (function : Function.ofName name ∉ [.aggregate, .coalesce, .range, .nodes, .relationships,
    .existence])
    (applied : (Function.ofName name).body scope goal.mode name arg = .ok body)
    (value : Lowers scope (.value .raw) arg t) :
    Lowers scope goal (.call name distinct [arg]) (goal.ofValue (t ++ [.unlessNull body]))

namespace Expr

variable {scope : Scope} {goal : Goal}

/-! ## Expressions -/

/-- From every number on, lowering the expression gives what it is lowered to and takes numbers
upwards. -/
def Traced (scope : Scope) (goal : Goal) (e : Expr) : Prop :=
  ∀ n, DeliversFrom n (e.lower scope goal) fun t n' => e.Lowers scope goal t ∧ n ≤ n'

/-- An expression that is lowered like another one, up to what comes after it. -/
lemma Traced.then {inner : Expr} {from' : Goal} (h : inner.Traced scope from')
    {f : Traversal → Traversal} (hf : ∀ t, inner.Lowers scope from' t → e.Lowers scope goal (f t))
    (n : Nat) :
    DeliversFrom n (do return f (← inner.lower scope from')) fun t n' => e.Lowers scope goal t ∧
      n ≤ n' :=
  (h n).bind fun t _ ht => .pure ⟨hf t ht.1, ht.2⟩

/-- A part of an expression that takes no numbers, and a traversal that is made of it. -/
lemma deliversFrom_lift {x : Except QueryFault α} {R : α → Prop} {f : α → Traversal}
    (hx : Delivers x R) (hf : ∀ a, R a → e.Lowers scope goal (f a)) (n : Nat) :
    DeliversFrom n (do return f (← x) : Supply Traversal) fun t n' => e.Lowers scope goal t ∧
      n ≤ n' :=
  .lift_bind hx fun a ha => .pure ⟨hf a ha, le_rfl⟩

lemma traced_compare {op : Comparison} {l r : Expr} (hl : l.Traced scope .operand)
    (hr : r.Traced scope .operand) : (compare op l r).Traced scope goal := by
  have hoperand {e : Expr} (he : e.Traced scope .operand) (n : Nat) : DeliversFrom n
      (e.lower scope .operand) fun t n' => e.Lowers scope .operand t ∧ t.IsOperand ∧ n ≤ n' :=
    ⟨fun r hr => ⟨((he n).result r hr).1, ⟨e, scope, n, r.2, hr⟩, ((he n).result r hr).2⟩,
      (he n).fault⟩
  intro n
  rw [lower]
  refine .ite (fun hnull => .pure ⟨.compareNull goal op hnull, le_rfl⟩) fun hnull => ?_
  rw [Bool.not_eq_true] at hnull
  refine .lift_bind r.delivers_constant? fun v? hright => ?_
  cases v? with
  | some v =>
    exact hl.then (fun left hleft => .compareRight goal op hnull ((hright v).1 rfl) hleft) n
  | none =>
    refine .lift_bind l.delivers_constant? fun v? hleft => ?_
    cases v? with
    | some v =>
      exact hr.then (fun right hright => .compareLeft goal op hnull ((hleft v).1 rfl) hright) n
    | none =>
      refine (deliversFrom_fresh .generated n).bind ?_
      rintro _ _ ⟨rfl, rfl⟩
      refine (hoperand hr _).bind fun right n₁ hright => (hoperand hl n₁).bind fun left n₂ hleft =>
        .pure ⟨?_, ?_⟩
      · exact .compare goal op _ hnull hright.1 hleft.1 hright.2.1 hleft.2.1
      · exact (Nat.le_succ n).trans (hright.2.2.trans hleft.2.2)

lemma traced_call {name : String} {distinct : Bool} {args : List Expr}
    (hargs : ∀ n, DeliversFrom n (lowerAll scope goal.mode args) fun ts n' =>
      List.Forall₂ (fun e t => Lowers scope (.value goal.mode) e t) args ts ∧ n ≤ n')
    (harg : ∀ arg, args = [arg] → arg.Traced scope (.value .raw))
    (hbase : ∀ base k, args = [.property base k] → base.Traced scope (.value .raw)) :
    (call name distinct args).Traced scope goal := by
  intro n
  rw [lower.eq_def]
  dsimp only
  split
  · exact .throw rfl
  · rename_i hname
    refine .ite (fun _ => .throw_bind rfl) fun _ => (hargs n).bind fun ts n' hts =>
      .pure ⟨?_, hts.2⟩
    obtain ⟨hlen, hvals⟩ := forall₂_iff_zip.1 hts.1
    exact .coalesce goal hname hlen fun p hp => hvals hp
  · rename_i hname
    exact deliversFrom_lift (delivers_rangeOf _ args) (fun t ht => .range goal hname ht.1 ht.2) n
  · split
    · rename_i arg
      have hpath {f : PathShape → Traversal} (hf : ∀ v shape, arg = .var v →
          scope.HoldsPath v shape →
          (call name distinct [arg]).Lowers scope goal (f shape)) : DeliversFrom n
          (do return f (← scope.pathArgument name arg) : Supply Traversal)
          fun t n' => (call name distinct [arg]).Lowers scope goal t ∧ n ≤ n' :=
        deliversFrom_lift (scope.delivers_pathArgument name arg)
          (fun shape hshape => hshape.elim fun v hv => hf v shape hv.1 hv.2) n
      split
      · rename_i hname
        refine hpath ?_
        rintro v shape rfl hshape
        exact .pathPart goal .node (.inl hname) hshape
      · rename_i hname
        refine hpath ?_
        rintro v shape rfl hshape
        exact .pathPart goal .relationship (.inr hname) hshape
      · rename_i hname
        split
        · rename_i base k
          exact .lift_bind (delivers_checkName k _) fun _ hk =>
            .lift_bind (scope.delivers_isMap base).eq fun _ hmap =>
            (hbase base k rfl).then (fun t ht => .existence goal hname hk hmap ht) n
        · exact .throw rfl
      · refine .ite (fun hlen => hpath ?_) fun _ => ?_
        · rw [Bool.and_eq_true, beq_iff_eq] at hlen
          rintro v shape rfl hshape
          exact .pathLength goal hlen.1 hshape
        · have hname : Function.ofName name ∉ [.aggregate, .coalesce, .range, .nodes,
            .relationships, .existence] := by
            simp_all
          exact .lift_bind (Function.delivers_body _ scope _ name arg).eq fun body hbody =>
            (harg arg rfl).then (fun t ht => .function goal hname hbody ht) n
    · exact .throw rfl

end Expr

mutual

/-- Every traversal of an expression is what the expression is lowered to. -/
theorem Expr.traced (scope : Scope) (goal : Goal) : ∀ e : Expr, e.Traced scope goal
  | .literal l => by
    intro n
    rw [lower.eq_def]
    dsimp only
    -- As filters, truth values and null have traversals of their own.
    split
    · exact .pure ⟨.always, le_rfl⟩
    · exact .pure ⟨.never (.inl rfl), le_rfl⟩
    · exact .pure ⟨.never (.inr rfl), le_rfl⟩
    · exact deliversFrom_lift l.delivers_eq (fun v hv => .literal goal hv) n
  | .parameter name => by
    refine fun n => deliversFrom_lift (delivers_parameterValue name) ?_ n
    rintro _ ⟨hname, rfl⟩
    exact .parameter goal hname
  | .var v => deliversFrom_lift (scope.delivers_recalls v goal.mode).eq fun t ht =>
    .var goal ((scope.delivers_recalls v goal.mode).result t ht) ht
  | .property base k => by
    intro n
    rw [lower]
    refine .lift_bind (scope.delivers_directAccess? goal base k) fun t? ht => ?_
    cases t? with
    | some t =>
      obtain ⟨v, binding, isMap, rfl, rfl, hbound, hplain, rfl⟩ := ht t rfl
      exact .pure ⟨.direct isMap hbound hplain, le_rfl⟩
    | none =>
      exact .lift_bind (scope.delivers_propertyStep base k).eq fun s hs =>
        (traced scope (.value .raw) base).then (fun t ht => .property goal hs ht) n
  | .list items => by
    intro n
    have hitems := traced_all scope goal.mode items n
    rw [lower.eq_def]
    dsimp only
    split
    · exact .pure ⟨@Lowers.constants scope goal [] _ rfl, le_rfl⟩
    · rename_i ls _ hls
      obtain rfl := eq_map_of_literalItems? hls
      exact deliversFrom_lift (delivers_values_eq ls) (fun vs hvs => .constants goal hvs) n
    · rename_i hne _
      refine hitems.bind fun ts _ hts => .pure ⟨?_, hts.2⟩
      obtain ⟨hlen, hvals⟩ := forall₂_iff_zip.1 hts.1
      exact .list goal hne hlen fun p hp => hvals hp
  | .map entries => by
    intro n
    have hentries := traced_entries scope goal.mode entries n
    rw [lower.eq_def]
    dsimp only
    split
    · exact .pure ⟨.emptyMap goal, le_rfl⟩
    · rename_i hne
      refine hentries.bind fun ts _ hts => .pure ⟨?_, hts.2⟩
      obtain ⟨hkeys, hplain, hvals⟩ := hts.1
      exact .map goal hne hkeys hplain fun p hp => (forall₂_iff_zip.1 hvals).2 hp
  | .not inner => (traced scope .filter inner).then fun _ h => .not goal h
  | .and l r => fun n => (traced scope .filter l n).bind fun _ n₁ hl =>
      (traced scope .filter r n₁).bind fun _ _ hr => .pure ⟨.and goal hl.1 hr.1, hl.2.trans hr.2⟩
  | .or l r => fun n => (traced scope .filter l n).bind fun _ n₁ hl =>
      (traced scope .filter r n₁).bind fun _ _ hr => .pure ⟨.or goal hl.1 hr.1, hl.2.trans hr.2⟩
  | .xor _ _ | .arithmetic _ _ _ | .countStar => fun _ => .throw rfl
  | .compare op l r => traced_compare (traced scope .operand l) (traced scope .operand r)
  | .stringMatch test l r => fun n => .lift_bind r.delivers_stringOperand fun _ hv =>
      (traced scope .operand l).then (fun _ hl => .stringMatch goal test hv hl) n
  | .isNull inner => (traced scope (.value .raw) inner).then fun _ h => .isNull goal h
  | .isNotNull inner => (traced scope (.value .raw) inner).then fun _ h => .isNotNull goal h
  | .member item group => fun n => .lift_bind group.delivers_candidates fun _ hvs =>
      (traced scope .operand item).then (fun _ h => .member goal hvs h) n
  | .hasLabels v labels => by
    refine fun n => .lift_bind (scope.delivers_lookup v _) fun binding hbind => ?_
    refine deliversFrom_lift (delivers_labelTests labels) ?_ n
    rintro _ ⟨hplain, rfl⟩
    exact .hasLabels goal (Table.has_iff.2 (Table.mem_keys_of_get? hbind)) hplain
  | .pattern p => deliversFrom_lift (Pattern.delivers_testTraversal scope p).eq fun _ hrun =>
    .pattern goal ((Pattern.delivers_testTraversal scope p).result _ hrun) hrun
  | .call name distinct args => by
    refine traced_call (traced_all scope goal.mode args) (fun arg heq => ?_) fun base k heq => ?_
    · match args, heq with
      | [arg], rfl => exact traced scope (.value .raw) arg
    · match args, heq with
      | [.property base k], rfl => exact traced scope (.value .raw) base

/-- The values of some expressions, item by item. -/
theorem Expr.traced_all (scope : Scope) (mode : Mode) : ∀ (es : List Expr) (n : Nat),
    DeliversFrom n (lowerAll scope mode es) fun ts n' =>
      List.Forall₂ (fun e t => Lowers scope (.value mode) e t) es ts ∧ n ≤ n'
  | [], _ => .pure ⟨.nil, le_rfl⟩
  | e :: rest, n => (traced scope (.value mode) e n).bind fun _ n₁ h =>
      (traced_all scope mode rest n₁).bind fun _ _ hrest =>
        .pure ⟨.cons h.1 hrest.1, h.2.trans hrest.2⟩

/-- The values of the entries of a map, with their keys. -/
theorem Expr.traced_entries (scope : Scope) (mode : Mode) :
    ∀ (entries : List (String × Expr)) (n : Nat),
    DeliversFrom n (lowerEntries scope mode entries) fun ts n' =>
      (ts.map Prod.fst = entries.map (fun entry => Label.named entry.1) ∧
      (∀ entry ∈ entries, Plain entry.1) ∧
        List.Forall₂ (fun entry t => Lowers scope (.value mode) entry.2 t.2) entries ts) ∧ n ≤ n'
  | [], _ => .pure ⟨⟨rfl, by simp, .nil⟩, le_rfl⟩
  | (k, e) :: rest, n => .lift_bind (delivers_checkName k _) fun _ hk =>
      (traced scope (.value mode) e n).bind fun _ n₁ h =>
        (traced_entries scope mode rest n₁).bind fun _ _ hrest =>
          .pure ⟨⟨by simp [hrest.1.1], forall_mem_cons.2 ⟨hk, hrest.1.2.1⟩, .cons h.1 hrest.1.2.2⟩,
            h.2.trans hrest.2⟩

end

theorem Expr.ensures_lowers (scope : Scope) (goal : Goal) (e : Expr) :
    Ensures Always (e.lower scope goal) (e.Lowers scope goal) := fun n _ t n' h =>
  ⟨trivial, ((e.traced scope goal n).result (t, n') h).1⟩

/-- What holds of the traversals of some expressions, pair by pair, holds of all the traversals. -/
lemma forall_mem_of_zip {P : β → Prop} (hlen : as.length = bs.length)
    (h : ∀ p ∈ as.zip bs, P p.2) : ∀ b ∈ bs, P b := by
  have hsnd : (as.zip bs).map Prod.snd = bs := map_snd_zip hlen.ge
  rw [← hsnd]
  exact forall_mem_map.2 h

end CypherGremlin
