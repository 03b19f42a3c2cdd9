import CypherGremlin.Proofs.Statement.Lowers

/-!
# Lowered expressions

Every name and every string of an expression is checked on its way into a traversal, with one
exception: the types of the relationships of a pattern that is a test.  `Expr.predicateTypes` lists
them.
-/

namespace CypherGremlin

variable {k var : String} {v : Value} {T : Sources} {e : Expr} {op : Comparison}
  {ts : List Traversal} {binding : Binding}

open List

/-! ## Types in pattern predicates -/

mutual

/-- The types of relationships in the patterns that are tests inside an expression.  The operands of
a comparison with null are not looked into, because such a comparison is never made. -/
def Expr.predicateTypes : Expr → List String
  | .pattern p => p.hops.flatMap fun hop => hop.rel.types
  | .property base _ => base.predicateTypes
  | .list items => Expr.allPredicateTypes items
  | .map entries => Expr.entryPredicateTypes entries
  | .not inner | .isNull inner | .isNotNull inner => inner.predicateTypes
  | .and l r | .or l r | .xor l r | .member l r => l.predicateTypes ++ r.predicateTypes
  | .stringMatch _ l r | .arithmetic _ l r => l.predicateTypes ++ r.predicateTypes
  | .compare _ l r =>
    if l.isNullLiteral || r.isNullLiteral then [] else l.predicateTypes ++ r.predicateTypes
  | .call _ _ args => Expr.allPredicateTypes args
  | .literal _ | .parameter _ | .var _ | .hasLabels _ _ | .countStar => []

/-- The types of relationships in the pattern predicates of some expressions. -/
def Expr.allPredicateTypes : List Expr → List String
  | [] => []
  | e :: rest => e.predicateTypes ++ Expr.allPredicateTypes rest

/-- The types of relationships in the pattern predicates of the entries of a map. -/
def Expr.entryPredicateTypes : List (String × Expr) → List String
  | [] => []
  | (_, e) :: rest => e.predicateTypes ++ Expr.entryPredicateTypes rest

end

/-! ## Parameters -/

mutual

def Expr.parameters : Expr → List String
  | .parameter name => [name]
  | .property base _ => base.parameters
  | .list items => Expr.allParameters items
  | .map entries => Expr.entryParameters entries
  | .not inner | .isNull inner | .isNotNull inner => inner.parameters
  | .and l r | .or l r | .xor l r | .member l r => l.parameters ++ r.parameters
  | .compare _ l r | .stringMatch _ l r | .arithmetic _ l r => l.parameters ++ r.parameters
  | .pattern p => Expr.patternParameters p
  | .call _ _ args => Expr.allParameters args
  | .literal _ | .var _ | .hasLabels _ _ | .countStar => []

def Expr.allParameters : List Expr → List String
  | [] => []
  | e :: rest => e.parameters ++ Expr.allParameters rest

/-- The parameters in the entries of a map, or in the properties of an element. -/
def Expr.entryParameters : List (String × Expr) → List String
  | [] => []
  | (_, e) :: rest => e.parameters ++ Expr.entryParameters rest

def Expr.nodeParameters : NodePatternOf Expr → List String
  | ⟨_, _, properties⟩ => Expr.entryParameters properties

def Expr.relParameters : RelPatternOf Expr → List String
  | ⟨_, _, _, properties, _⟩ => Expr.entryParameters properties

/-- The parameters in the hops of a pattern. -/
def Expr.hopParameters : List (HopOf Expr) → List String
  | [] => []
  | ⟨rel, node⟩ :: rest =>
    Expr.relParameters rel ++ Expr.nodeParameters node ++ Expr.hopParameters rest

def Expr.patternParameters : PatternOf Expr → List String
  | ⟨_, start, hops⟩ => Expr.nodeParameters start ++ Expr.hopParameters hops

end

lemma Expr.allPredicateTypes_eq (es : List Expr) :
    allPredicateTypes es = es.flatMap predicateTypes :=
  eq_flatMap_of_cons rfl (fun _ _ => rfl) es

lemma Expr.entryPredicateTypes_eq (entries : List (String × Expr)) :
    entryPredicateTypes entries = entries.flatMap fun entry => entry.2.predicateTypes :=
  eq_flatMap_of_cons rfl (fun _ _ => rfl) entries

lemma Expr.allParameters_eq (es : List Expr) : allParameters es = es.flatMap parameters :=
  eq_flatMap_of_cons rfl (fun _ _ => rfl) es

lemma Expr.entryParameters_eq (entries : List (String × Expr)) :
    entryParameters entries = entries.flatMap fun entry => entry.2.parameters :=
  eq_flatMap_of_cons rfl (fun _ _ => rfl) entries

lemma Expr.nodeParameters_eq (node : NodePattern) :
    nodeParameters node = node.properties.flatMap fun entry => entry.2.parameters := by
  obtain ⟨var, labels, properties⟩ := node
  exact entryParameters_eq properties

lemma Expr.relParameters_eq (rel : RelPattern) :
    relParameters rel = rel.properties.flatMap fun entry => entry.2.parameters := by
  obtain ⟨var, types, direction, properties, length⟩ := rel
  exact entryParameters_eq properties

lemma Expr.hopParameters_eq (hops : List Hop) : hopParameters hops =
    hops.flatMap fun hop => (hop.rel.properties ++ hop.node.properties).flatMap fun entry =>
      entry.2.parameters := by
  induction hops with
  | nil => rfl
  | cons hop rest ih => simp [hopParameters, relParameters_eq, nodeParameters_eq, ih]

/-- The values that a pattern gives to properties. -/
def Pattern.values (p : Pattern) : List Expr :=
  (p.start.properties ++ p.hops.flatMap fun hop => hop.rel.properties ++ hop.node.properties).map
    Prod.snd

lemma Expr.patternParameters_eq (p : Pattern) :
    patternParameters p = p.values.flatMap parameters := by
  obtain ⟨path, start, hops⟩ := p
  simp [patternParameters, nodeParameters_eq, hopParameters_eq, Pattern.values, flatMap_map,
    flatMap_assoc]

/-! ## What an expression brings along -/

/-- The parameters of the expression are among the given ones. -/
def Expr.Supplied (T : Sources) (e : Expr) : Prop := ∀ name ∈ e.parameters, T.parameters name

/-- The pattern predicates of the expression test only the given types, and its parameters are among
the given ones. -/
structure Expr.Within (T : Sources) (e : Expr) : Prop where
  types : ∀ type ∈ e.predicateTypes, T.types type
  supplied : e.Supplied T

namespace Expr.Within

variable {l r : Expr}

lemma operands (htypes : e.predicateTypes = l.predicateTypes ++ r.predicateTypes)
    (hparams : e.parameters = l.parameters ++ r.parameters) (h : e.Within T) :
    l.Within T ∧ r.Within T := by
  have htypes' := htypes ▸ h.types
  have hsupplied : ∀ name ∈ l.parameters ++ r.parameters, T.parameters name := hparams ▸ h.supplied
  rw [forall_mem_append] at htypes' hsupplied
  exact ⟨⟨htypes'.1, hsupplied.1⟩, ⟨htypes'.2, hsupplied.2⟩⟩

lemma compared (h : (compare op l r).Within T)
    (hnull : (l.isNullLiteral || r.isNullLiteral) = false) : l.Within T ∧ r.Within T := by
  refine h.operands ?_ rfl
  rw [predicateTypes, if_neg (by simp [hnull])]

lemma items {es : List Expr} (htypes : ∀ type ∈ allPredicateTypes es, T.types type)
    (hsupplied : ∀ name ∈ allParameters es, T.parameters name) : ∀ e ∈ es, e.Within T := by
  rw [allPredicateTypes_eq, forall_mem_flatMap] at htypes
  rw [allParameters_eq, forall_mem_flatMap] at hsupplied
  exact fun e he => ⟨htypes e he, hsupplied e he⟩

lemma entries {es : List (String × Expr)} (h : (Expr.map es).Within T) :
    ∀ entry ∈ es, entry.2.Within T := by
  have htypes : ∀ type ∈ entryPredicateTypes es, T.types type := h.types
  have hsupplied : ∀ name ∈ entryParameters es, T.parameters name := h.supplied
  rw [entryPredicateTypes_eq, forall_mem_flatMap] at htypes
  rw [entryParameters_eq, forall_mem_flatMap] at hsupplied
  exact fun entry hentry => ⟨htypes entry hentry, hsupplied entry hentry⟩

end Expr.Within

lemma Expr.Supplied.pattern {p : Pattern} (h : (Expr.pattern p).Supplied T) :
    ∀ e ∈ p.values, e.Supplied T := by
  have hsupplied : ∀ name ∈ patternParameters p, T.parameters name := h
  rw [patternParameters_eq, forall_mem_flatMap] at hsupplied
  exact hsupplied

lemma Expr.Constant.sound (h : e.Constant v) (hT : e.Supplied T) : v.Sound T := by
  cases h with
  | literal hv => exact (Literal.delivers_toValue _).result _ hv
  | parameter hname => exact .parameter hname (hT _ mem_cons_self)

lemma Expr.Candidates.sound {vs : List Value} (h : e.Candidates vs) (hT : e.Supplied T) :
    ∀ v ∈ vs, v.Sound T := by
  cases h with
  | literal hvs | list hvs => exact (Literal.delivers_toValues _).result _ hvs
  | parameter hname => exact forall_mem_singleton.2 (.parameter hname (hT _ mem_cons_self))

/-- A path has elements, and they have clean labels. -/
structure PathShape.Clean (shape : PathShape) : Prop where
  nonempty : shape.elements ≠ []
  labels : ∀ element ∈ shape.elements, element.label.Clean

/-- Names in scope cannot be taken for tokens, and the elements of paths have clean labels. -/
structure Scope.Clean (scope : Scope) : Prop where
  vars : ∀ var ∈ Table.keys scope.vars, Plain var
  paths : ∀ entry ∈ scope.paths, entry.2.Clean

namespace Scope.Clean

variable {scope : Scope}

lemma binds (h : scope.Clean) (hvar : scope.binds var = true) : Plain var :=
  h.vars var (Table.mem_keys_of_has hvar)

lemma path (h : scope.Clean) {shape : PathShape}
    (hshape : Table.get? scope.paths var = some shape) : shape.Clean :=
  h.paths _ (Table.mem_of_get? hshape)

end Scope.Clean

/-! ## Parts of traversals -/

namespace Lowered

variable {t : Traversal}

lemma constant (h : v.Sound T) : Lowered T [.constant v] := leaf h rfl

lemma null : Lowered T Traversal.null := constant .null

lemma select {l : Label} (h : l.Clean) : Lowered T [.select [l]] :=
  leaf (forall_mem_singleton.2 h) rfl

lemma is {p : Predicate} (h : p.Sound T) : Lowered T [.is p] := leaf h rfl

lemma notNull : Lowered T [Step.notNull] := is (forall_mem_singleton.2 .null)

lemma isNull : Lowered T [Step.isNull] := is (forall_mem_singleton.2 .null)

lemma choose {c yes no : Traversal} (hc : Lowered T c) (hyes : Lowered T yes) (hno : Lowered T no) :
    Lowered T [.choose (.traversal c) yes no] :=
  step trivial (by simp [Step.children, hc, hyes, hno])

lemma unlessNull (h : Lowered T t) : Lowered T [.unlessNull t] :=
  step (s := .choose _ _ _) (forall_mem_singleton.2 .null) (by simp [Step.children, h, null])

lemma project {entries : List (Label × Traversal)} (hne : entries ≠ [])
    (h : ∀ entry ∈ entries, entry.1.Clean ∧ Lowered T entry.2) : Lowered T [.project entries] :=
  step ⟨hne, fun entry hentry => (h entry hentry).1⟩
    (forall_mem_map.2 fun entry hentry => (h entry hentry).2)

lemma union (hne : ts ≠ []) (h : ∀ t ∈ ts, Lowered T t) : Lowered T [.union ts] := step hne h

lemma coalesce (hne : ts ≠ []) (h : ∀ t ∈ ts, Lowered T t) : Lowered T [.coalesce ts] :=
  step hne h

/-! ## Tags -/

lemma elementTag (token : Token) : Lowered T [.elementTag token] :=
  project (by simp) (by simpa [Label.Clean] using leaf (s := .valueMap true) trivial rfl)

lemma relationshipTag (token : Token) : Lowered T [.relationshipTag token] := by
  have hid : Lowered T [.id] := leaf trivial rfl
  refine project (by simp) ?_
  simp only [forall_mem_cons]
  exact ⟨⟨trivial, leaf trivial rfl⟩, ⟨trivial, append (a := [.inV]) (leaf trivial rfl) hid⟩,
    ⟨trivial, append (a := [.outV]) (leaf trivial rfl) hid⟩, by simp⟩

lemma kindTag (kind : ElementKind) : Lowered T [kind.tag] := by
  cases kind with
  | node => exact elementTag _
  | relationship => exact relationshipTag _

lemma idTag (h : Lowered T t) : Lowered T [.idTag t] :=
  project (by simp) (by simpa [Label.Clean] using h)

lemma pathElementTag (position : Nat) (element : PathElement) :
    Lowered T [element.tag position] := by
  rcases element.tag_eq position with ⟨token, h⟩ | ⟨token, h⟩
  · exact h ▸ elementTag token
  · exact h ▸ relationshipTag token

/-! ## Functions -/

lemma access (isMap : Bool) (h : Plain k) : Lowered T [.access isMap k] := by
  cases isMap with
  | true => exact leaf ⟨h, .inl ⟨k, rfl⟩⟩ rfl
  | false => exact leaf (forall_mem_singleton.2 h) rfl

lemma bool (b : Bool) : Lowered T [.constant (.bool b)] := constant (.bool b)

lemma hasAccess (isMap : Bool) (h : Plain k) : Lowered T [.hasAccess isMap k] :=
  unlessNull (choose (access isMap h) (bool true) (bool false))

lemma functionBody (h : Function.Body t) : Lowered T t := by
  cases h with
  | id | type | entries | startNode | endNode | custom => exact leaf trivial rfl
  | idTag => exact idTag (leaf trivial rfl)
  | labels => exact append (a := [.label]) (leaf trivial rfl) (leaf (s := .fold) trivial rfl)
  | keys =>
    refine of_forall ?_
    simp only [forall_mem_cons]
    exact ⟨leaf (by simp [Step.Own]) rfl, leaf trivial rfl, leaf trivial rfl,
      leaf trivial rfl, by simp⟩
  | startTag => exact append (a := [.outV]) (leaf trivial rfl) (elementTag _)
  | endTag => exact append (a := [.inV]) (leaf trivial rfl) (elementTag _)

lemma range (h : IsRange t) : Lowered T t := by
  cases h with
  | integers is => exact constant (.list (forall_mem_map.2 fun _ _ => .int _))
  | invalid => exact append (constant (.string (by decide))) (leaf trivial rfl)

lemma always : Lowered T Traversal.always := leaf trivial rfl

lemma never : Lowered T Traversal.never := step trivial (forall_mem_singleton.2 always)

lemma comparison (h : v.Sound T) : Lowered T [.is (op.predicate v)] :=
  is (by cases op <;> exact forall_mem_singleton.2 h)

lemma propertyStep (hk : Plain k) (isMap : Bool) :
    Lowered T [.unlessNull [.coalesce [[.access isMap k], Traversal.null]]] :=
  unlessNull (coalesce (by simp) (by simpa using ⟨access isMap hk, null⟩))

end Lowered

end CypherGremlin
