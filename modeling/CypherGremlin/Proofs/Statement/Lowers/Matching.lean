import CypherGremlin.Proofs.Statement.Lowers
import CypherGremlin.Statement.Matching

/-!
# What patterns are lowered to

A clause is lowered from one draft to another.  As for expressions, what this gives where it
succeeds is a relation, here between the clause, its steps and the two drafts, with one rule for
each way in which the computation can go.

* `Draft.Computes`, `Draft.Tests` and `Draft.Labels` are for what the clauses have in common:
  values, conditions, and the labels of elements.
* `Matching.Element` is for an element of a pattern, which is compared with a variable in scope or
  gets a label.
* `Matching.All` and `Matching.Tries` are for the two kinds of MATCH.
-/

namespace CypherGremlin

/-! ## Drafts -/

namespace Draft

/-- Numbers are taken upwards, and nothing else changes. -/
structure Counts (draft draft' : Draft) : Prop where
  scope : draft'.scope = draft.scope
  buckets : draft'.buckets = draft.buckets
  next : draft.next ≤ draft'.next

/-- The traversal of an expression.  Numbers may be taken on the way. -/
structure Computes (draft : Draft) (goal : Goal) (e : Expr) (t : Traversal) (draft' : Draft) :
    Prop where
  run : e.lower draft.scope goal draft.next = .ok (t, draft'.next)
  lowers : e.Lowers draft.scope goal t
  counts : draft.Counts draft'

/-- The step of a condition, if there is one. -/
inductive Tests (draft : Draft) : Option Expr → Traversal → Draft → Prop
  | none : Tests draft none [] draft
  | some {e : Expr} {t : Traversal} {draft' : Draft} (test : draft.Computes .filter e t draft') :
    Tests draft (some e) [.filter t] draft'

/-- What labelling an element does: its variable is declared, or a number is taken. -/
inductive Labels (draft : Draft) (kind : VarKind) (nullable : Bool) :
    Option String → Label → Draft → Prop
  | number : Labels draft kind nullable none (.token (.unnamed draft.next.toUInt32))
    { draft with next := draft.next + 1 }
  | var {v : String} (plain : Plain v) : Labels draft kind nullable (some v) (.named v)
    { draft with scope := draft.scope.declare v kind nullable }

variable {draft draft' draft'' : Draft}

lemma Counts.refl (draft : Draft) : draft.Counts draft := ⟨rfl, rfl, le_rfl⟩

lemma Counts.succ (draft : Draft) : draft.Counts { draft with next := draft.next + 1 } :=
  ⟨rfl, rfl, Nat.le_succ _⟩

lemma Counts.trans (h : draft.Counts draft') (h' : draft'.Counts draft'') : draft.Counts draft'' :=
  ⟨h'.scope.trans h.scope, h'.buckets.trans h.buckets, h.next.trans h'.next⟩

lemma Tests.counts {e : Option Expr} {t : Traversal} (h : draft.Tests e t draft') :
    draft.Counts draft' := by
  cases h with
  | none => exact .refl draft
  | some htest => exact htest.counts

end Draft

namespace Drafting

variable {α β : Type} {draft : Draft} {Q : β → Draft → Prop}

lemma scope_bind {f : Scope → Drafting β} (h : DeliversFrom draft (f draft.scope) Q) :
    DeliversFrom draft (scope >>= f) Q := h

lemma modifyScope_bind {g : Scope → Scope} {f : Unit → Drafting β}
    (h : DeliversFrom { draft with scope := g draft.scope } (f ()) Q) :
    DeliversFrom draft (modifyScope g >>= f) Q := h

lemma fresh_bind {token : UInt32 → Token} {f : Label → Drafting β}
    (h : DeliversFrom { draft with next := draft.next + 1 }
      (f (.token (token draft.next.toUInt32))) Q) :
    DeliversFrom draft (fresh token >>= f) Q := h

/-- Taking numbers changes nothing else. -/
lemma deliversFrom_lower (e : Expr) (goal : Goal) :
    DeliversFrom draft (supply fun scope => e.lower scope goal) (draft.Computes goal e) := by
  have htraced := e.traced draft.scope goal draft.next
  refine .get_bind (.lift_bind (Delivers.eq htraced) fun r hr => Delivers.ok ?_)
  obtain ⟨hlowers, hnext⟩ := htraced.result r hr
  exact ⟨hr, hlowers, rfl, rfl, hnext⟩

lemma deliversFrom_value (e : Expr) (mode : Mode) :
    DeliversFrom draft (value e mode) (draft.Computes (.value mode) e) :=
  deliversFrom_lower e _

lemma deliversFrom_condition (e : Option Expr) :
    DeliversFrom draft (condition e) (draft.Tests e) := by
  cases e with
  | none => exact .pure .none
  | some e => exact (deliversFrom_lower e .filter).bind fun _ _ h => .pure (.some h)

lemma deliversFrom_bindElement (var : Option String) (kind : VarKind) (nullable : Bool)
    (context : String) :
    DeliversFrom draft (bindElement var kind nullable context)
    (draft.Labels kind nullable var) := by
  cases var with
  | none => exact fresh_bind (modifyScope_bind (.pure .number))
  | some v =>
    rw [bindElement, elementLabel, bind_assoc]
    exact .lift_bind (delivers_checkName v context) fun _ hv => Delivers.ok (.var hv)

end Drafting

namespace Scope

variable (scope : Scope)

lemma delivers_expectKind (v : String) (kind : VarKind) (context : String) :
    Delivers (scope.expectKind v kind context) fun binding => scope.binding? v = some binding :=
  (scope.delivers_lookup v context).bind fun _ hbind => .ite (fun _ => .pure hbind) fun _ =>
    .throw rfl

variable {scope}

lemma binds_of_filter {var : Option String} (h : var.filter scope.binds = none) :
    ∀ v ∈ var, scope.binds v = false :=
  fun v hv => Bool.eq_false_iff.2 (Option.filter_eq_none_iff.1 h v hv)

lemma binds_of_binding? {v : String} {binding : Binding} (h : scope.binding? v = some binding) :
    scope.binds v = true :=
  Table.has_iff.2 (Table.mem_keys_of_get? h)

end Scope

/-! ## Elements of patterns -/

namespace Matching

/-- Where an element stands in a pattern. -/
inductive Place where
  | start
  | relationship
  | node

namespace Place

/-- What stands there. -/
def kind : Place → VarKind
  | start | node => .node
  | relationship => .relationship

/-- The steps to an element that a variable in scope holds, and its tests. -/
def revisit (place : Place) (binding : Binding) (v : String) (tests : Traversal) : Traversal :=
  match place with
  | start => binding.select v ++ tests
  | relationship => tests ++ [.whereLabel .eq (.named v)]
  | node => .whereLabel .eq (.named v) :: tests

/-- The steps to an element that gets a label, and its tests. -/
def meet (place : Place) (tests : Traversal) (l : Label) : Traversal :=
  match place with
  | start => .V :: tests ++ [.as l]
  | relationship | node => tests ++ [.as l]

end Place

/-- An element of a pattern, with its label and its steps.  The last label is that of an element
which is new. -/
inductive Element (isOptional : Bool) (draft : Draft) (p : Place) (var? : Option String)
    (tests : Traversal) : Label → Traversal → List Label → Draft → Prop
  | known {v : String} {binding : Binding} (var : var? = some v) (bound : draft.scope.binding? v =
    some binding) (expected : draft.scope.expectKind v p.kind "MATCH" = .ok binding) :
    Element isOptional draft p var? tests (.named v) (p.revisit binding v tests) [] draft
  | new {l : Label} {draft' : Draft} (unbound : ∀ v ∈ var?, draft.scope.binds v = false)
    (label : draft.Labels p.kind isOptional var? l draft') :
    Element isOptional draft p var? tests l (p.meet tests l) [l] draft'

/-- The label by which a path knows the relationship of a hop: a marker, if the path has a name. -/
def marker (path : Option String) (position : Nat) (l : Label) : Label :=
  match path with
  | some path => .token (.pathEdge (path ++ "." ++ toString position))
  | none => l

/-- The step that puts the marker. -/
def marking (path : Option String) (position : Nat) : Traversal :=
  match path with
  | some path => [.as (.token (.pathEdge (path ++ "." ++ toString position)))]
  | none => []

inductive Starts (isOptional : Bool) (draft : Draft) (pattern : NodePattern) :
    Traversal → Draft → Prop
  | intro {tests steps : Traversal} {l : Label} {new : List Label} {draft' : Draft}
    (tested : NodePattern.TestedBy pattern tests)
    (element : Element isOptional draft .start pattern.var tests l steps new draft') :
    Starts isOptional draft pattern steps draft'

inductive Crosses (isOptional : Bool) (path : Option String) (position : Nat) (draft : Draft)
    (h : Hop) : List PathElement → Matched → Draft → Prop
  | intro {relTests relSteps nodeTests nodeSteps : Traversal} {relLabel nodeLabel : Label}
    {relationships new : List Label}
    {draft₁ draft₂ : Draft} (types : ∀ type ∈ h.rel.types, Plain type)
    (relTested : PropertyTests h.rel.properties relTests)
    (rel : Element isOptional draft .relationship h.rel.var (h.rel.direction.edgeStep h.rel.types ::
    relTests) relLabel
      relSteps relationships draft₁) (nodeTested : NodePattern.TestedBy h.node nodeTests)
    (node : Element isOptional draft₁ .node h.node.var nodeTests nodeLabel nodeSteps new draft₂) :
    Crosses isOptional path position draft h [⟨marker path position relLabel, .relationship⟩,
    ⟨nodeLabel, .node⟩]
      ⟨relSteps ++ marking path position ++ [h.rel.direction.nodeStep] ++ nodeSteps,
      relationships⟩ draft₂

/-- Some hops, from a position on. -/
inductive CrossesAll (isOptional : Bool) (path : Option String) :
    Nat → Draft → List Hop → List PathElement → Matched → Draft → Prop
  | nil (position : Nat) (draft : Draft) : CrossesAll isOptional path position draft [] [] {} draft
  | cons {position : Nat} {draft draft₁ draft₂ : Draft} {h : Hop} {rest : List Hop}
    {elements others : List PathElement}
    {matched matched' : Matched}
    (hop : Crosses isOptional path position draft h elements matched draft₁)
    (hops : CrossesAll isOptional path (position + 1) draft₁ rest others matched' draft₂) :
    CrossesAll isOptional path position draft (h :: rest) (elements ++ others)
    (matched.append matched') draft₂

/-! ## Patterns -/

/-- A pattern.  If it has a name, the start of the path gets a marker, and the path is declared. -/
inductive Matches (isOptional : Bool) (draft : Draft) (p : Pattern) : Matched → Draft → Prop
  | unnamed {steps : Traversal} {elements : List PathElement} {matched : Matched}
    {draft₁ draft₂ : Draft}
    (name : p.path = none) (start : Starts isOptional draft p.start steps draft₁)
    (hops : CrossesAll isOptional none 1 draft₁ p.hops elements matched draft₂) :
    Matches isOptional draft p (Matched.append ⟨steps, []⟩ matched) draft₂
  | named {path : String} {steps : Traversal} {elements : List PathElement} {matched : Matched}
    {draft₁ draft₂ : Draft}
    (name : p.path = some path) (plain : Plain path) (required : isOptional = false)
    (start : Starts isOptional draft p.start steps draft₁)
    (hops : CrossesAll isOptional (some path) 1 draft₁ p.hops elements matched draft₂) :
    Matches isOptional draft p (Matched.append ⟨steps ++ [.as (.token (.pathStart path))],
    []⟩ matched)
      { draft₂
      with scope := draft₂.scope.declarePath path ⟨⟨.token (.pathStart path), .node⟩ :: elements⟩ }

inductive MatchesAll (isOptional : Bool) : Draft → List Pattern → Matched → Draft → Prop
  | nil (draft : Draft) : MatchesAll isOptional draft [] {} draft
  | cons {draft draft₁ draft₂ : Draft} {p : Pattern} {rest : List Pattern}
    {matched matched' : Matched} (pattern : Matches isOptional draft p matched draft₁)
    (patterns : MatchesAll isOptional draft₁ rest matched' draft₂) :
    MatchesAll isOptional draft (p :: rest) (matched.append matched') draft₂

inductive All (isOptional : Bool) (draft : Draft) (ps : List Pattern) (condition : Option Expr) :
    Traversal → Draft → Prop
  | intro {matched : Matched} {tests : Traversal} {draft₁ draft₂ : Draft}
    (patterns : MatchesAll isOptional draft ps matched draft₁)
    (tested : draft₁.Tests condition tests draft₂) :
    All isOptional draft ps condition (matched.steps ++ differences matched.relationships ++
    tests) draft₂

/-- The labels that both arms of an optional match select at their end. -/
def slots (vars : List String) : List Label := vars.map .named ++ [.token .unused]

/-- The choice that an optional match makes. -/
def choice (matched : Traversal) (vars : List String) : Step :=
  .coalesce [matched ++ [.as (.token .unused), .select (slots vars)], nulls (slots vars) vars]

end Matching

/-- The variables that the second draft has and the first has not. -/
def Draft.introduced (draft draft' : Draft) : List String :=
  (Table.keys draft'.scope.vars).drop draft.scope.vars.length

namespace Matching

/-- An optional match.  Variables that it introduces are bound again behind the choice. -/
inductive Tries (draft : Draft) (ps : List Pattern) (condition : Option Expr) :
    Traversal → Draft → Prop
  | checks {matched : Traversal} {draft' : Draft} (all : All true draft ps condition matched draft')
    (introduced : draft.introduced draft' = []) :
    Tries draft ps condition [choice matched (draft.introduced draft')] draft'
  | binds {matched : Traversal} {draft' : Draft} (all : All true draft ps condition matched draft')
    (introduced : draft.introduced draft' ≠ []) :
    Tries draft ps condition (choice matched (draft.introduced draft') ::
      rebinding (.token (.freshId draft'.next.toUInt32)) (draft.introduced draft'))
      { draft' with next := draft'.next + 1 }

variable {draft : Draft}

/-! ## What the computations give -/

lemma deliversFrom_start (isOptional : Bool) (pattern : NodePattern) :
    DeliversFrom draft (start isOptional pattern) (Starts isOptional draft pattern) := by
  refine Drafting.scope_bind ?_
  split
  · rename_i v hv
    have hexpected := draft.scope.delivers_expectKind v .node "MATCH"
    refine .lift_bind hexpected.eq fun binding hbind => ?_
    refine .lift_bind (NodePattern.delivers_tests pattern) fun tests htests => .pure ?_
    have hv := (Option.filter_eq_some_iff.1 hv).1
    exact .intro htests (.known hv (hexpected.result _ hbind) hbind)
  · rename_i hfree
    refine .lift_bind (NodePattern.delivers_tests pattern) fun tests htests => ?_
    refine (Drafting.deliversFrom_bindElement _ _ _ _).bind fun l draft' hl => .pure ?_
    exact .intro htests (.new (Scope.binds_of_filter hfree) hl)

lemma deliversFrom_relationship (isOptional : Bool) (rel : RelPattern) :
    DeliversFrom draft (relationship isOptional rel) fun r draft' =>
    (∀ type ∈ rel.types, Plain type) ∧
      ∃ tests, PropertyTests rel.properties tests ∧ Element isOptional draft .relationship rel.var
        (rel.direction.edgeStep rel.types :: tests) r.1 r.2.steps r.2.relationships draft' := by
  refine .lift_bind (delivers_checkLength rel) fun _ _ =>
    .forM_bind (fun type _ => delivers_checkName type _) fun htypes => ?_
  refine .lift_bind (delivers_propertyTests rel.properties) fun tests htests =>
    Drafting.scope_bind ?_
  split
  · rename_i v hv
    have hexpected := draft.scope.delivers_expectKind v .relationship "MATCH"
    refine .lift_bind hexpected.eq fun binding hbind => .pure ⟨htypes, tests, htests, ?_⟩
    exact .known (Option.filter_eq_some_iff.1 hv).1 (hexpected.result _ hbind) hbind
  · rename_i hfree
    refine (Drafting.deliversFrom_bindElement _ _ _ _).bind fun l draft' hl =>
      .pure ⟨htypes, tests, htests, ?_⟩
    exact .new (Scope.binds_of_filter hfree) hl

lemma deliversFrom_node (isOptional : Bool) (pattern : NodePattern) :
    DeliversFrom draft (node isOptional pattern) fun r draft' =>
      ∃ tests new, NodePattern.TestedBy pattern tests ∧
      Element isOptional draft .node pattern.var tests r.1 r.2 new draft' := by
  refine Drafting.scope_bind ?_
  split
  · rename_i v hv
    have hexpected := draft.scope.delivers_expectKind v .node "MATCH"
    refine .lift_bind hexpected.eq fun binding hbind => ?_
    refine .lift_bind (NodePattern.delivers_tests pattern) fun tests htests => .pure ?_
    have hv := (Option.filter_eq_some_iff.1 hv).1
    exact ⟨tests, _, htests, .known hv (hexpected.result _ hbind) hbind⟩
  · rename_i hfree
    refine .lift_bind (NodePattern.delivers_tests pattern) fun tests htests => ?_
    refine (Drafting.deliversFrom_bindElement _ _ _ _).bind fun l draft' hl => .pure ?_
    exact ⟨tests, _, htests, .new (Scope.binds_of_filter hfree) hl⟩

lemma deliversFrom_hop (isOptional : Bool) (path : Option String) (position : Nat) (h : Hop) :
    DeliversFrom draft (hop isOptional path position h) fun r draft' =>
      Crosses isOptional path position draft h r.1 r.2 draft' := by
  refine (deliversFrom_relationship isOptional h.rel).bind ?_
  rintro ⟨relLabel, matched⟩ draft₁ ⟨htypes, relTests, hrelTests, hrel⟩
  refine (deliversFrom_node isOptional h.node).bind ?_
  rintro ⟨nodeLabel, nodeSteps⟩ draft₂ ⟨nodeTests, new, hnodeTests, hnode⟩
  cases path <;> exact .pure (.intro htypes hrelTests hrel hnodeTests hnode)

lemma deliversFrom_hops (isOptional : Bool) (path : Option String) (position : Nat)
    (hs : List Hop) : DeliversFrom draft (hops isOptional path position hs) fun r draft' =>
      CrossesAll isOptional path position draft hs r.1 r.2 draft' := by
  induction hs generalizing draft position with
  | nil => exact .pure (.nil position draft)
  | cons h rest ih =>
    exact (deliversFrom_hop isOptional path position h).bind fun _ _ hhop =>
      (ih (position + 1)).bind fun _ _ hhops =>
      .pure (.cons hhop hhops)

lemma deliversFrom_pattern (isOptional : Bool) (p : Pattern) :
    DeliversFrom draft (pattern isOptional p) (Matches isOptional draft p) := by
  rw [pattern]
  cases hname : p.path with
  | none =>
    refine (deliversFrom_start isOptional p.start).bind fun steps draft₁ hstart => ?_
    exact (deliversFrom_hops isOptional none 1 p.hops).bind fun _ _ hhops =>
      .pure (.unnamed hname hstart hhops)
  | some path =>
    refine .lift_bind (delivers_checkName path _) fun _ hplain =>
      .ite (fun _ => .throw_bind rfl) fun hreq => ?_
    refine (deliversFrom_start isOptional p.start).bind fun steps draft₁ hstart => ?_
    exact (deliversFrom_hops isOptional (some path) 1 p.hops).bind fun _ _ hhops =>
      Drafting.modifyScope_bind (.pure (.named hname hplain (by simpa using hreq) hstart hhops))

lemma deliversFrom_patterns (isOptional : Bool) (ps : List Pattern) :
    DeliversFrom draft (patterns isOptional ps) (MatchesAll isOptional draft ps) := by
  induction ps generalizing draft with
  | nil => exact .pure (.nil draft)
  | cons p rest ih =>
    exact (deliversFrom_pattern isOptional p).bind fun _ _ hp => ih.bind fun _ _ hrest =>
      .pure (.cons hp hrest)

lemma deliversFrom_all (isOptional : Bool) (ps : List Pattern) (condition : Option Expr) :
    DeliversFrom draft (all isOptional ps condition) (All isOptional draft ps condition) :=
  (deliversFrom_patterns isOptional ps).bind fun _ _ hps =>
    (Drafting.deliversFrom_condition condition).bind fun _ _ htests => .pure (.intro hps htests)

lemma deliversFrom_optionally (ps : List Pattern) (condition : Option Expr) :
    DeliversFrom draft (optionally ps condition) (Tries draft ps condition) := by
  refine Drafting.scope_bind ((deliversFrom_all true ps condition).bind fun matched draft'
    hall => ?_)
  refine Drafting.scope_bind (.ite (fun hnone => .pure (.checks hall (List.isEmpty_iff.1 hnone)))
    fun hsome => ?_)
  exact Drafting.fresh_bind (.pure (.binds hall fun hnone => hsome (List.isEmpty_iff.2 hnone)))

end Matching

end CypherGremlin
