import CypherGremlin.Proofs.Engine.Bridge
import CypherGremlin.Proofs.Engine.Single
import CypherGremlin.Proofs.Statement.Lowers

/-!
# Expressions have one value

Wherever a traversal needs the value of an expression, it runs the traversal of the expression as a
child and relies on one object: a child that gives nothing stops the engine, and a second object
would be lost.  `Expr.run_value_single` says that the traversal of a value keeps to that.  The
induction goes only through the expressions whose value is read and used further: the base of a
property, the argument of a function, the arguments of `coalesce`.  Tests end in a choice between
two constants, lists in a `fold` and maps in a `project`, so that what stands inside them does not
matter.
-/

namespace CypherGremlin

variable {a : Traversal}

open List Traversal

/-- The labels of a traverser bind the variables in scope that do not hold a path.  A path has no
label of its own; it is read off its elements. -/
def Scope.BoundAt (scope : Scope) (t : Traverser) : Prop :=
  ∀ var binding, scope.binding? var = some binding → binding.kind ≠ .path →
    (t.label? (Label.named var).encode).isSome

/-- The step computes one object from one object. -/
def Step.isPointwise : Step → Bool
  | .id | .label | .inV | .outV | .selectColumn _ | .apply _ => true
  | _ => false

namespace GivesOne

variable {env : Env} {t : Traverser} {inner : Traversal}

/-! ## Parts of traversals -/

lemma constant (v : Value) : GivesOne (run env [.constant v]) t :=
  step (Machine.givesOne_constant _)

lemma project (entries : List (Label × Traversal)) : GivesOne (run env [.project entries]) t :=
  step (Machine.givesOne_project _)

lemma choose (c : Condition) {yes no : Traversal} (hyes : GivesOne (run env yes) t)
    (hno : GivesOne (run env no) t) : GivesOne (run env [.choose c yes no]) t :=
  step (Machine.givesOne_choose _ hyes hno)

lemma unlessNull (h : GivesOne (run env inner) t) : GivesOne (run env [.unlessNull inner]) t :=
  choose _ h (constant _)

lemma coalesceNull (branches : List Traversal)
    (h : ∀ branch ∈ branches, GivesAtMostOne (run env branch) t) :
    GivesOne (run env [.coalesce (branches ++ [null])]) t := by
  refine step ?_
  rw [Step.run, runAll_eq_map, map_append]
  exact Machine.givesOne_coalesce (forall_mem_map.2 h) (constant _)

lemma access (isMap : Bool) (k : String) : GivesAtMostOne (run env [.access isMap k]) t := by
  rw [run_singleton]
  cases isMap with
  | true => exact Machine.givesAtMostOne_selectOne _
  | false => exact Machine.givesAtMostOne_values k

lemma hasAccess (isMap : Bool) (k : String) : GivesOne (run env [.hasAccess isMap k]) t :=
  unlessNull (choose _ (constant _) (constant _))

lemma kindTag (kind : ElementKind) : GivesOne (run env [kind.tag]) t := by
  cases kind <;> exact project _

lemma pathReadKind (shape : PathShape) (mode : Mode) (kind : ElementKind) :
    GivesOne (run env (shape.readKind mode kind)) t := by
  have hread (branches : List Traversal) : GivesOne (run env
      (if branches.isEmpty then [.constant (.list [])] else [.union branches, .fold])) t := by
    split
    · exact constant _
    · exact fold [_]
  exact hread _

lemma recalls {scope : Scope} (hscope : scope.BoundAt t) {var : String} {mode : Mode}
    (h : scope.Recalls var mode a) : GivesOne (run env a) t := by
  have hsel {binding : Binding} (hbound : scope.binding? var = some binding)
      (hkind : binding.kind ≠ .path) : GivesOne (run env [.select [.named var]]) t :=
    step (Machine.givesOne_selectOne (hscope var binding hbound hkind))
  cases h with
  | label _ hbound hkind => exact hsel hbound hkind
  | tagged element hbound hkind =>
    exact (hsel hbound hkind).append fun _ => unlessNull (kindTag element)
  | path => exact fold [_]

lemma pointwise {s : Step} (hs : s.isPointwise = true) : GivesOne (run env [s]) t := by
  refine step ?_
  cases s with
  | id | label | inV | outV | apply =>
    rw [Step.run]
    exact Machine.givesOne_emitOne _
  | selectColumn column =>
    cases column <;> (rw [Step.run, Machine.selectColumn]; exact Machine.givesOne_emitOne _)
  | _ => cases hs

lemma functionBody {body : Traversal} (h : Function.Body body) (t : Traverser) :
    GivesOne (run env body) t := by
  cases h with
  | id | type | entries | startNode | endNode | custom => exact pointwise rfl
  | idTag => exact project _
  | labels => exact fold [_]
  | keys => exact fold [_, _, _]
  | startTag | endTag => exact append (pointwise rfl) fun _ => project _

lemma range (h : IsRange a) : GivesOne (run env a) t := by
  cases h with
  | integers => exact constant _
  | invalid => exact append (constant _) fun _ => pointwise rfl

lemma ofTest (mode : Mode) (test : Traversal) :
    GivesOne (run env ((Goal.value mode).ofTest test)) t :=
  choose _ (constant _) (constant _)

end GivesOne

/-! ## Expressions -/

/-- From a traverser that binds the variables in scope, the traversal of the value of an expression
gives one object. -/
theorem Expr.Lowers.givesOne (env : Env) {t : Traverser} {scope : Scope} (hscope : scope.BoundAt t)
    {goal : Goal} {e : Expr} (h : e.Lowers scope goal a) :
    ∀ {mode : Mode}, goal = .value mode → GivesOne (run env a) t := by
  induction h with
  | always | never | direct =>
    intro mode hmode
    cases hmode
  | literal | parameter | constants | emptyMap | pathLength =>
    rintro mode rfl
    exact .constant _
  | var _ hread =>
    rintro mode rfl
    exact .recalls hscope hread
  | property _ hstep _ ih =>
    rintro mode rfl
    obtain ⟨-, isMap, rfl⟩ := (Scope.delivers_propertyStep _ _ _).result _ hstep
    refine (ih rfl).append fun _ => .unlessNull (.coalesceNull [_] (forall_mem_singleton.2 ?_))
    exact GivesOne.access isMap _
  | list =>
    rintro mode rfl
    exact .fold [_]
  | map =>
    rintro mode rfl
    exact .project _
  | not | and | or | compareNull | compareRight | compareLeft | compare | stringMatch | isNull
  | isNotNull | member
  | hasLabels | pattern =>
    rintro mode rfl
    exact .ofTest mode _
  | coalesce _ _ hlen _ ih =>
    rintro mode rfl
    -- An argument that is null is dropped; null comes back only at the very end.
    have hargs : ∀ a ∈ _, GivesOne (run env a) t := forall_mem_of_zip hlen fun p hp => ih p hp rfl
    exact .coalesceNull _ (forall_mem_map.2 fun a ha => (hargs a ha).append_is _)
  | range _ _ _ hrange =>
    rintro mode rfl
    exact .range hrange
  | pathPart _ kind =>
    rintro mode rfl
    exact .pathReadKind _ mode kind
  | existence _ _ _ _ _ ih =>
    rintro mode rfl
    exact (ih rfl).append fun _ => .hasAccess _ _
  | function _ _ hbody _ ih =>
    rintro mode rfl
    have hbody := (Function.delivers_body _ _ _ _ _).result _ hbody
    exact (ih rfl).append fun t => .unlessNull (.functionBody hbody t)

/-- The traversal of the value of an expression gives exactly one object, or the engine stops.  Of
the traverser from which it starts only the labels of the variables in scope matter: a path is a
list, which is one object whatever its elements are. -/
theorem Expr.run_value_single {scope : Scope} {mode : Mode} {e : Expr} {n n' : Nat} {a : Traversal}
    (h : e.lower scope (.value mode) n = .ok (a, n')) {t : Traverser} (ht : scope.BoundAt t)
    (env : Env) (w : World) : (∃ halt, Bytecode.run env a.bytecode [t] w = .error halt) ∨
      ∃ o w', Bytecode.run env a.bytecode [t] w = .ok ([o], w') := by
  have hone : GivesOne (Traversal.run env a) t :=
    (e.ensures_lowers scope (.value mode) n trivial a n' h).2.givesOne env ht rfl
  rw [Bytecode.run_bytecode]
  cases hrun : Traversal.run env a [t] w with
  | error halt => exact .inl ⟨halt, rfl⟩
  | ok r =>
    obtain ⟨o, ho⟩ := List.length_eq_one_iff.1 (hone w trivial r.1 r.2 hrun).2
    exact .inr ⟨o, r.2, by rw [← ho]⟩

/-- The expression `coalesce(n.nick, {name: n.name, old: n.age > 30, way: p})`. -/
def Expr.portrait : Expr := .call "coalesce" false [.property (.var "n") "nick", .map [
  ("name", .property (.var "n") "name"),
  ("old", .compare .gt (.property (.var "n") "age") (.literal (.int 30))),
  ("way", .var "p")]]

/-- A node, and the path of that node alone. -/
def Scope.portrait : Scope :=
  (Scope.declare {} "n" .node false).declarePath "p" ⟨[⟨.named "n", .node⟩]⟩

/-- A node without any property still has a portrait, and only one. -/
theorem Expr.run_value_single_portrait :
    ∃ id graph a n', Graph.empty.addVertex? "Person" = some (id, graph) ∧
    Expr.portrait.lower Scope.portrait (.value .result) 1 = .ok (a, n') ∧
      Scope.portrait.BoundAt (Traverser.mark (.fresh (.vertex id)) "n") ∧
      ∃ o w', Bytecode.run (Env.standard []) a.bytecode
      [Traverser.mark (.fresh (.vertex id)) "n"] ⟨graph, []⟩ = .ok ([o], w') := by
  obtain ⟨⟨id, graph⟩, hgraph, ⟨a, n'⟩, hlower, r, hr⟩ : ∃ added ∈ Graph.empty.addVertex? "Person",
      ∃ r, Expr.portrait.lower Scope.portrait (.value .result) 1 = .ok r ∧
        ∃ out, Bytecode.run (Env.standard []) (Traversal.bytecode r.1)
        [Traverser.mark (.fresh (.vertex added.1)) "n"] ⟨added.2, []⟩ = .ok out := by
    decide +kernel
  have hbound : Scope.portrait.BoundAt (Traverser.mark (.fresh (.vertex id)) "n") := by
    intro var binding hvar hkind
    have hmem : (var, binding) ∈ [("n", ⟨.node, false⟩), ("p", ⟨.path, false⟩)] :=
      Table.mem_of_get? hvar
    simp only [List.mem_cons, Prod.mk.injEq, List.not_mem_nil, or_false] at hmem
    obtain ⟨rfl, rfl⟩ | ⟨rfl, rfl⟩ := hmem
    · rfl
    · exact absurd rfl hkind
  refine ⟨id, graph, a, n', hgraph, hlower, hbound, ?_⟩
  obtain ⟨halt, hhalt⟩ | hone := Expr.run_value_single hlower hbound (Env.standard []) ⟨graph, []⟩
  · cases hr.symm.trans hhalt
  · exact hone

end CypherGremlin
