import CypherGremlin.Proofs.Statement.Adding

/-!
# What patterns add to the program

A pattern labels the elements whose variables are not in scope, and a named path also gets markers.
The shape of the path is made of such labels: markers for its start and its relationships, and for
every other node the label of the node, which may be a variable that was in scope before.

* `Matching.Part` is the invariant along a pattern.
* `Matching.Introduces` says where a path comes from: the steps of its pattern stand in those of the
  clause, every label of its shape is put by them or was in scope before, and no later step of the
  clause puts it again.
* `Matching.adds_of_all` and `Matching.Tries.addsOnly` say what MATCH and OPTIONAL MATCH add.
-/

namespace CypherGremlin

variable {condition : Option Expr} {l : Label} {m matched m' : Matched} {p : Pattern}
  {ps rest : List Pattern} {position : Nat} {var : Option String}

open List Table Traversal

/-! ## Labels of a path -/

namespace Label

/-- No number that is taken from now on gives the label, as long as numbers fit into 32 bits. -/
def Taken (next : Nat) (l : Label) : Prop := ¬ l.IsNumberedIn next UInt32.size

/-- The label marks the start of a path or one of its relationships. -/
def IsMarker (path : String) (l : Label) : Prop :=
  l = .token (.pathStart path) ∨
    ∃ position : Nat, l = .token (.pathEdge (path ++ "." ++ toString position))

/-- The steps put the label, or it is a variable that was in scope before them. -/
def BoundBy (draft : Draft) (t : Traversal) (l : Label) : Prop :=
  l ∈ puts t ∨ ∃ var, l = .named var ∧ draft.scope.binds var = true

variable {n m : Nat}

lemma Taken.mono (h : l.Taken n) (hnm : n ≤ m) : l.Taken m := fun hl => h (hl.mono hnm le_rfl)

lemma taken_named (var : String) : (Label.named var).Taken n := by
  simp [Taken, IsNumberedIn]

lemma IsMarker.taken {path : String} (h : l.IsMarker path) : l.Taken n := by
  rcases h with rfl | ⟨position, rfl⟩ <;> simp [Taken, IsNumberedIn]

lemma taken_unnamed (h : n < m) : (Label.token (.unnamed n.toUInt32)).Taken m := by
  rintro ⟨k, hk, hsize, hl | hl⟩
  · have heq : n.toUInt32 = k.toUInt32 := by simpa using hl
    have hn : n < UInt32.size := (h.trans_le hk).trans hsize
    have hnat : n = k := by
      rw [← UInt32.toNat_ofNat_of_lt' hn, ← UInt32.toNat_ofNat_of_lt' hsize]
      exact congrArg UInt32.toNat heq
    omega
  · simp at hl

lemma IsElement.not_isMarker {path : String} (h : l.IsElement) : ¬ l.IsMarker path := by
  rcases h with ⟨var, rfl⟩ | ⟨n, rfl⟩ <;> simp [IsMarker]

end Label

lemma Label.IsMarker.eq {path path' : String} (h : l.IsMarker path) (h' : l.IsMarker path') :
    path = path' := by
  rcases h with rfl | ⟨n, rfl⟩ <;> rcases h' with heq | ⟨m, heq⟩
  · simpa using heq
  · simp at heq
  · simp at heq
  · exact (Token.hop_inj (by simpa using heq)).1

/-! ## Along a pattern -/

namespace Matching

variable {B : Set Label} {path : Option String} {names : List String} {draft draft₁ draft₂ : Draft}
  {es es' : List PathElement} {a b t : Traversal}

/-- What part of a pattern adds.  The variables that come into scope are those that are put as
labels.  The label of an element is put or was in scope; it is that of an element, or a marker of
the path. -/
structure Part (B : Set Label) (path : Option String) (draft : Draft) (es : List PathElement)
    (t : Traversal) (draft' : Draft) : Prop extends AddsOnly B draft t draft' where
  scope : ∀ var, draft'.scope.binds var = true ↔ draft.scope.binds var = true ∨
    .named var ∈ Traversal.puts t
  elements : ∀ element ∈ es, element.label.BoundBy draft t ∧ element.label.Taken draft'.next ∧
    (element.label.IsElement ∨ ∃ p ∈ path, element.label.IsMarker p)

namespace Part

lemma append (ha : Part B path draft es a draft₁) (hb : Part B path draft₁ es' b draft₂) :
    Part B path draft (es ++ es') (a ++ b) draft₂ := by
  refine ⟨ha.toAddsOnly.append hb.toAddsOnly, fun var => ?_, ?_⟩
  · rw [hb.scope, ha.scope, puts_append, Set.mem_union, or_assoc]
  · refine forall_mem_append.2 ⟨fun element helem => ?_, fun element helem => ?_⟩
    · obtain ⟨hbound, htaken, hkind⟩ := ha.elements element helem
      refine ⟨hbound.imp_left fun hput => ?_, htaken.mono hb.next, hkind⟩
      exact puts_subset_append a b hput
    · obtain ⟨hbound, htaken, hkind⟩ := hb.elements element helem
      refine ⟨?_, htaken, hkind⟩
      rw [Label.BoundBy, puts_append]
      rcases hbound with hput | ⟨var, hlabel, hbinds⟩
      · exact .inl (.inr hput)
      · -- A variable in scope after the first part was in scope before, or the first part has put
        -- it.
        rcases (ha.scope var).1 hbinds with hold | hput
        · exact .inr ⟨var, hlabel, hold⟩
        · exact .inl (.inl (hlabel ▸ hput))

lemma subset (h : Part B path draft es t draft₁) (hsub : ∀ element ∈ es', element ∈ es) :
    Part B path draft es' t draft₁ :=
  ⟨h.toAddsOnly, h.scope, fun element helem => h.elements element (hsub element helem)⟩

lemma quiet (h : AllQuiet t) (draft : Draft) : Part B path draft [] t draft := by
  have hputs : puts t = ∅ := puts_eq_empty fun s hs => (h s hs).put
  exact ⟨.of_quiet h (.refl _), by simp [hputs], by simp⟩

lemma known {var : String} (h : AllQuiet t) (hbinds : draft.scope.binds var = true)
    (kind : ElementKind) : Part B path draft [⟨.named var, kind⟩] t draft := by
  have hquiet : Part B path draft [] t draft := quiet h draft
  refine ⟨hquiet.toAddsOnly, hquiet.scope, forall_mem_singleton.2 ?_⟩
  exact ⟨.inr ⟨var, rfl, hbinds⟩, Label.taken_named var, .inl (.inl ⟨var, rfl⟩)⟩

lemma label {kind : VarKind} {nullable : Bool} (hl : draft.Labels kind nullable var l draft₁)
    (hB : ∀ v ∈ var, .named v ∈ B) (elementKind : ElementKind) :
    Part B path draft [⟨l, elementKind⟩] [.as l] draft₁ := by
  have hadds := hl.addsOnly hB
  cases hl with
  | number =>
    refine ⟨hadds, by simp [puts_as], forall_mem_singleton.2 ⟨.inl (by simp), ?_, ?_⟩⟩
    · exact Label.taken_unnamed (Nat.lt_succ_self _)
    · exact .inl (.inr ⟨_, rfl⟩)
  | @var v =>
    refine ⟨hadds, fun u => ?_, forall_mem_singleton.2 ⟨.inl (by simp), ?_, ?_⟩⟩
    · simp [Scope.binds_declare, puts_as, or_comm]
    · exact Label.taken_named v
    · exact .inl (.inl ⟨v, rfl⟩)

lemma marker {p : String} (hpath : p ∈ path) (hl : l.IsMarker p) (hB : l ∈ B) (draft : Draft)
    (kind : ElementKind) : Part B path draft [⟨l, kind⟩] [.as l] draft := by
  have hnamed : ∀ var, l ≠ .named var := by
    rintro var rfl
    exact Label.IsElement.not_isMarker (.inl ⟨var, rfl⟩) hl
  refine ⟨⟨⟨forall_mem_singleton.2 (.leaf rfl rfl), fun l' hl' => .inl ?_, le_rfl, fun _ h => h⟩,
    rfl⟩,
    fun var => by simp [puts_as, (hnamed var).symm],
    forall_mem_singleton.2 ⟨.inl (by simp), hl.taken, .inr ⟨p, hpath, hl⟩⟩⟩
  rw [puts_as, Set.mem_singleton_iff] at hl'
  exact hl' ▸ hB

end Part

/-! ## Elements and hops -/

variable {isOptional : Bool}

variable (path) in
/-- An element of a pattern.  Its variable is among the given names. -/
lemma Element.part {place : Place} {tests : Traversal} {new : List Label}
    (h : Element isOptional draft place var tests l t new draft₁) (hB : draft.Admits names B)
    (hvar : ∀ v ∈ var, v ∈ names) (htests : AllQuiet tests) (kind : ElementKind) :
    Part B path draft [⟨l, kind⟩] t draft₁ := by
  cases h with
  | known _ hbound =>
    refine .known ?_ (Scope.binds_of_binding? hbound) kind
    cases place with
    | start => exact (AllQuiet.bindingSelect _ _).append htests
    | relationship => exact htests.append (forall_mem_singleton.2 (.whereLabel _ _))
    | node => exact forall_mem_cons.2 ⟨.whereLabel _ _, htests⟩
  | new hfree hl =>
    have hlabel : Part B path draft [⟨l, kind⟩] [.as l] draft₁ :=
      .label hl (fun v hv => hB v (hvar v hv) (hfree v hv)) kind
    cases place with
    | start =>
      have hfront : AllQuiet (.V :: tests) := forall_mem_cons.2 ⟨.leaf rfl rfl rfl, htests⟩
      exact (Part.quiet hfront draft).append hlabel
    | relationship | node => exact (Part.quiet htests draft).append hlabel

variable (path) in
lemma Starts.part {pattern : NodePattern} (h : Starts isOptional draft pattern t draft₁)
    (hB : draft.Admits names B) (hvar : ∀ v ∈ pattern.var, v ∈ names) :
    Part B path draft [] t draft₁ := by
  obtain ⟨htests, helem⟩ := h
  exact (helem.part path hB hvar (.of_isProbe htests.isProbe) .node).subset (by simp)

/-- The variables of a hop are among the given names, and markers among the given labels. -/
lemma Crosses.part {hop : Hop}
    (h : Crosses isOptional path position draft hop es matched draft₁) (hB : draft.Admits names B)
    (hrelVar : ∀ v ∈ hop.rel.var, v ∈ names) (hnodeVar : ∀ v ∈ hop.node.var, v ∈ names)
    (hmarkers : ∀ name ∈ path, ∀ l : Label, l.IsMarker name → l ∈ B) :
    Part B path draft es matched.steps draft₁ := by
  obtain @⟨_, _, _, _, relLabel, nodeLabel, _, _, draft₀, _, -, hrelTests, hrel, hnodeTests,
    hnode⟩ := h
  have hedge := Step.Quiet.edgeStep hop.rel.direction hop.rel.types
  have hrelTests := forall_mem_cons.2 ⟨hedge, AllQuiet.of_isProbe hrelTests.isProbe⟩
  have hrel := hrel.part path hB hrelVar hrelTests .relationship
  have hnode := hnode.part path (hrel.admits hB) hnodeVar (.of_isProbe hnodeTests.isProbe) .node
  have hstep : Part B path draft₀ [] [hop.rel.direction.nodeStep] draft₀ :=
    .quiet (forall_mem_singleton.2 (.nodeStep _)) draft₀
  cases path with
  | none =>
    have hempty : Part B none draft₀ [] (marking none position) draft₀ :=
      .quiet (forall_mem_nil _) draft₀
    exact (((hrel.append hempty).append hstep).append hnode).subset (by simp [marker])
  | some name =>
    have hmarker : (marker (some name) position relLabel).IsMarker name := .inr ⟨position, rfl⟩
    have hmarking := Part.marker (Option.mem_some_self name) hmarker (hmarkers name rfl _ hmarker)
      draft₀ .relationship
    exact (((hrel.append hmarking).append hstep).append hnode).subset (by simp)

lemma CrossesAll.part {hops : List Hop}
    (h : CrossesAll isOptional path position draft hops es matched draft₁)
    (hB : draft.Admits names B) (hrels : ∀ hop ∈ hops, ∀ v ∈ hop.rel.var, v ∈ names)
    (hnodes : ∀ hop ∈ hops, ∀ v ∈ hop.node.var, v ∈ names)
    (hmarkers : ∀ name ∈ path, ∀ l : Label, l.IsMarker name → l ∈ B) :
    Part B path draft es matched.steps draft₁ := by
  induction h with
  | nil => exact .quiet (forall_mem_nil _) _
  | cons hhop _ ih =>
    obtain ⟨hrel, hrels⟩ := forall_mem_cons.1 hrels
    obtain ⟨hnode, hnodes⟩ := forall_mem_cons.1 hnodes
    have hpart := hhop.part hB hrel hnode hmarkers
    exact hpart.append (ih (hpart.admits hB) hrels hnodes)

/-! ## Patterns -/

/-- The variables of a pattern that are not in scope yet are among the given labels. -/
abbrev AdmitsPattern (B : Set Label) (draft : Draft) (p : Pattern) : Prop :=
  draft.Admits (p.nodeVars ++ p.relVars) B

section

lemma mem_vars (p : Pattern) : (∀ v ∈ p.start.var, v ∈ p.nodeVars ++ p.relVars) ∧
    (∀ hop ∈ p.hops, ∀ v ∈ hop.rel.var, v ∈ p.nodeVars ++ p.relVars) ∧
      ∀ hop ∈ p.hops, ∀ v ∈ hop.node.var, v ∈ p.nodeVars ++ p.relVars :=
  ⟨fun v hv => mem_append_left p.relVars (p.mem_nodeVars_start v hv),
    fun hop hhop v hv => mem_append_right p.nodeVars (p.mem_relVars hop hhop v hv),
    fun hop hhop v hv => mem_append_left p.relVars (p.mem_nodeVars hop hhop v hv)⟩

lemma Matches.part (h : Matches isOptional draft p m draft₁) (hpath : p.path = none)
    (hB : AdmitsPattern B draft p) : Part B none draft [] m.steps draft₁ := by
  obtain ⟨hstartVar, hrels, hnodes⟩ := mem_vars p
  cases h with
  | unnamed _ hstart hhops =>
    have hpart := hstart.part none hB hstartVar
    exact (hpart.append (hhops.part (hpart.admits hB) hrels hnodes (by simp))).subset (by simp)
  | named hname => simp [hpath] at hname

/-- What a pattern with a name adds: the path is declared, and its labels are as in `Part`. -/
structure Named (B : Set Label) (path : String) (draft : Draft) (shape : PathShape) (t : Traversal)
    (draft' : Draft) : Prop extends Adds B draft t draft' where
  paths : draft'.scope.paths = put draft.scope.paths path shape
  elements : ∀ element ∈ shape.elements, element.label.BoundBy draft t ∧
    element.label.Taken draft'.next ∧ (element.label.IsElement ∨ element.label.IsMarker path)
  bound : ∀ element ∈ shape.elements, ∀ var, element.label = .named var →
    draft'.scope.binds var = true

lemma Matches.named_part {path : String} (h : Matches isOptional draft p m draft₁)
    (hpath : p.path = some path) (hB : AdmitsPattern B draft p)
    (hmarkers : ∀ l : Label, l.IsMarker path → l ∈ B) :
    ∃ shape, Named B path draft shape m.steps draft₁ := by
  obtain ⟨hstartVar, hrels, hnodes⟩ := mem_vars p
  cases h with
  | unnamed hname => simp [hpath] at hname
  | @named name _ elements _ draft₀ draft₂ hname _ _ hstart hhops =>
    obtain rfl : path = name := Option.some.inj (hpath.symm.trans hname)
    have hpart := hstart.part (some path) hB hstartVar
    have hmarker := Part.marker (Option.mem_some_self path) (.inl rfl) (hmarkers _ (.inl rfl))
      draft₀ .node
    have hfront := hpart.append hmarker
    have hall :=
      hfront.append (hhops.part (hfront.admits hB) hrels hnodes (by simpa using hmarkers))
    set shape : PathShape := ⟨⟨.token (.pathStart path), .node⟩ :: elements⟩
    have hdeclared : ∀ var, draft₂.scope.binds var = true →
        (draft₂.scope.declarePath path shape).binds var = true :=
      fun var hvar => Scope.binds_declare.2 (.inr hvar)
    refine ⟨shape, ⟨?_, ?_, fun element helem => ?_, ?_⟩⟩
    · exact ⟨hall.steady, hall.puts, hall.next, fun var hvar => hdeclared var (hall.binds var hvar)⟩
    · exact congrArg (put · path shape) hall.paths
    · obtain ⟨hbound, htaken, hkind⟩ := hall.elements element helem
      exact ⟨hbound, htaken, hkind.imp_right (by simp)⟩
    · intro element helem var hlabel
      rcases (hall.elements element helem).1 with hput | ⟨var', hlabel', hbinds⟩
      · exact hdeclared var ((hall.scope var).2 (.inr (hlabel ▸ hput)))
      · obtain rfl : var = var' := by simpa [hlabel] using hlabel'
        exact hdeclared var (hall.binds var hbinds)

end

/-- The labels that patterns can put, apart from numbers: variables that are not in scope, and
markers. -/
def newLabels (scope : Scope) (ps : List Pattern) : Set Label :=
  {l | (∃ p ∈ ps, ∃ var ∈ p.nodeVars ++ p.relVars, l = .named var ∧ scope.binds var = false) ∨
    ∃ p ∈ ps, ∃ path ∈ p.path, l.IsMarker path}

lemma admits_newLabels : ∀ p ∈ ps, AdmitsPattern (newLabels draft.scope ps) draft p :=
  fun p hp var hvar hfree => .inl ⟨p, hp, var, hvar, rfl, hfree⟩

lemma marker_newLabels {scope : Scope} :
    ∀ p ∈ ps, ∀ path ∈ p.path, ∀ l : Label, l.IsMarker path → l ∈ newLabels scope ps :=
  fun p hp path hpath _ hl => .inr ⟨p, hp, path, hpath, hl⟩

lemma MatchesAll.adds (h : MatchesAll isOptional draft ps m draft₁)
    (hB : ∀ p ∈ ps, AdmitsPattern B draft p)
    (hmarkers : ∀ p ∈ ps, ∀ path ∈ p.path, ∀ l : Label, l.IsMarker path → l ∈ B) :
    Adds B draft m.steps draft₁ := by
  induction h with
  | nil => exact (AddsOnly.nil _).toAdds
  | @cons draft draft₁ _ p _ m _ hp _ ih =>
    obtain ⟨hpB, hB⟩ := forall_mem_cons.1 hB
    obtain ⟨hmarker, hmarkers⟩ := forall_mem_cons.1 hmarkers
    have hadds : Adds B draft m.steps draft₁ := by
      cases hpath : p.path with
      | none => exact (hp.part hpath hpB).toAdds
      | some path =>
        obtain ⟨shape, h⟩ := hp.named_part hpath hpB (hmarker path hpath)
        exact h.toAdds
    exact hadds.append (ih (fun p hp => hadds.admits (hB p hp)) hmarkers)

lemma MatchesAll.part (h : MatchesAll true draft ps m draft₁)
    (hB : ∀ p ∈ ps, AdmitsPattern B draft p) : Part B none draft [] m.steps draft₁ := by
  induction h with
  | nil => exact .quiet (forall_mem_nil _) _
  | @cons _ _ _ p _ _ _ hp _ ih =>
    obtain ⟨hpB, hB⟩ := forall_mem_cons.1 hB
    have hpath : p.path = none := by
      cases hp with
      | unnamed hname => exact hname
      | named _ _ hreq => cases hreq
    have hpart := hp.part hpath hpB
    exact hpart.append (ih fun p hp => hpart.admits (hB p hp))

/-! ## Where paths come from -/

/-- One of the patterns introduces the path.  Its steps stand behind those of the patterns before
it; they put every label of the path unless it was in scope before, and no step after them puts it
again, as long as numbers fit into 32 bits. -/
inductive Introduces (ps : List Pattern) (start : Draft) (t : Traversal) (next : Nat)
    (shape : PathShape) : Prop
  | intro {front back : List Pattern} {p : Pattern} {path : String} {draft draft' : Draft}
    {m₀ m : Matched}
    {after : Traversal} (split : ps = front ++ p :: back) (named : p.path = some path)
    (reached : patterns false front start = .ok (m₀, draft)) (lowered : pattern false p draft =
    .ok (m, draft'))
    (declared : get? draft'.scope.paths path = some shape)
    (steps : t = m₀.steps ++ m.steps ++ after)
    (bound : ∀ element ∈ shape.elements, element.label.BoundBy draft m.steps)
    (taken : ∀ element ∈ shape.elements, element.label.Taken next)
    (kept : next ≤ UInt32.size → ∀ element ∈ shape.elements, element.label ∉ Traversal.puts after)

lemma patterns_cons (hp : pattern false p draft = .ok (m, draft₁))
    (hrest : patterns false rest draft₁ = .ok (m', draft₂)) :
    patterns false (p :: rest) draft = .ok (m.append m', draft₂) := by
  rw [patterns, stateT_bind_eq hp, stateT_bind_eq hrest]
  rfl

namespace Introduces

variable {next next' : Nat} {shape : PathShape}

lemma cons (hp : pattern false p draft = .ok (m, draft₁))
    (h : Introduces ps draft₁ t next shape) :
    Introduces (p :: ps) draft (m.steps ++ t) next shape := by
  obtain @⟨front, back, p', path, draft₀, draft', m₀, m', after, rfl, named, reached, lowered,
    declared, rfl, bound, taken, kept⟩ := h
  have hsteps : m.steps ++ (m₀.steps ++ m'.steps ++ after) = (m.append m₀).steps ++ m'.steps ++
      after := by
    simp [Matched.append]
  exact ⟨(cons_append ..).symm, named, patterns_cons hp reached, lowered, declared, hsteps, bound,
    taken, kept⟩

/-- More steps after, if they put none of the labels. -/
lemma append {start : Draft} (h : Introduces ps start t next shape) (hnext : next ≤ next')
    {b : Traversal}
    (hb : next' ≤ UInt32.size → ∀ element ∈ shape.elements, element.label ∉ puts b) :
    Introduces ps start (t ++ b) next' shape := by
  obtain @⟨front, back, p, path, draft, draft', m₀, m, after, split, named, reached, lowered,
    declared, rfl, bound, taken, kept⟩ := h
  refine ⟨split, named, reached, lowered, declared, by rw [append_assoc], bound,
    fun element helem => (taken element helem).mono hnext, fun hsize element helem => ?_⟩
  rw [puts_append]
  rintro (hput | hput)
  · exact kept (hnext.trans hsize) element helem hput
  · exact hb hsize element helem hput

end Introduces

/-- A named pattern introduces its path, and the patterns after it put none of its labels unless one
of them has the same name. -/
lemma Named.introduces {path : String} {shape : PathShape}
    (h : Named Set.univ path draft shape m.steps draft₁) (hpath : p.path = some path)
    (hrun : pattern false p draft = .ok (m, draft₁)) (hrest : ∀ p ∈ rest, p.path ≠ some path)
    (hadds : Adds (newLabels draft₁.scope rest) draft₁ m'.steps draft₂) :
    Introduces (p :: rest) draft (m.steps ++ m'.steps) draft₂.next shape := by
  have hdeclared : get? draft₁.scope.paths path = some shape := by
    rw [h.paths]
    exact get?_put_self _ _ _
  refine ⟨(nil_append _).symm, hpath, (rfl : patterns false [] draft = .ok ({}, draft)), hrun,
    hdeclared, rfl, fun element helem => (h.elements element helem).1,
    fun element helem => (h.elements element helem).2.1.mono hadds.next,
    fun hsize element helem hput => ?_⟩
  obtain ⟨-, htaken, hkind⟩ := h.elements element helem
  rcases hadds.puts _ hput with (⟨_, _, var, _, hlabel, hfree⟩ | ⟨p', hp', path', hpath', hmarker⟩)
    | hnum
  · simp [h.bound element helem var hlabel] at hfree
  · rcases hkind with helem | hown
    · exact helem.not_isMarker hmarker
    · exact hrest p' hp' (hown.eq hmarker ▸ hpath')
  · exact htaken (hnum.mono le_rfl hsize)

/-- A path in scope after some patterns was in scope before and none of them has its name, or one of
them introduces it. -/
lemma introduces_of_path (ps : List Pattern) : ∀ {draft draft' : Draft} {m : Matched},
    patterns false ps draft = .ok (m, draft') → ∀ path shape, get? draft'.scope.paths path =
      some shape → (get? draft.scope.paths path = some shape ∧ ∀ p ∈ ps, p.path ≠ some path) ∨
        Introduces ps draft m.steps draft'.next shape := by
  induction ps with
  | nil =>
    rintro draft _ _ ⟨⟩ path shape hget
    exact .inl ⟨hget, by simp⟩
  | cons p rest ih =>
    intro draft draft' _ hrun path shape hget
    obtain ⟨m, draft₁, hp, hrun⟩ := stateT_bind_eq_ok.1 hrun
    obtain ⟨m', draft₂, hrest, hrun⟩ := stateT_bind_eq_ok.1 hrun
    obtain ⟨rfl, rfl⟩ := stateT_pure_eq_ok.1 hrun
    have hmatches := (deliversFrom_pattern false p).result _ hp
    have hadds := ((deliversFrom_patterns false rest).result _ hrest).adds admits_newLabels
      marker_newLabels
    have hall : AdmitsPattern Set.univ draft p := fun _ _ _ => trivial
    rcases ih hrest path shape hget with ⟨hold, hothers⟩ | hintroduced
    · cases hpath : p.path with
      | none =>
        rw [(hmatches.part hpath hall).paths] at hold
        exact .inl ⟨hold, forall_mem_cons.2 ⟨by simp [hpath], hothers⟩⟩
      | some name =>
        obtain ⟨shape', hm⟩ := hmatches.named_part hpath hall fun _ _ => trivial
        by_cases hname : path = name
        · subst hname
          rw [hm.paths, get?_put_self] at hold
          obtain rfl := Option.some.inj hold
          exact .inr (hm.introduces hpath hp hothers hadds)
        · rw [hm.paths, get?_put_of_ne _ hname] at hold
          refine .inl ⟨hold, forall_mem_cons.2 ⟨?_, hothers⟩⟩
          rw [hpath]
          exact fun heq => hname (Option.some.inj heq).symm
    · exact .inr (hintroduced.cons hp)

/-! ## Clauses -/

lemma allQuiet_differences (labels : List Label) : AllQuiet (differences labels) := by
  induction labels with
  | nil => exact forall_mem_nil _
  | cons l rest ih =>
    refine AllQuiet.append (forall_mem_map.2 fun r _ => ⟨⟨rfl, forall_mem_singleton.2 ?_⟩, rfl⟩) ih
    refine (neat_of_quiet ?_).orderly
    exact forall_mem_cons.2 ⟨.select _, forall_mem_singleton.2 (.whereLabel _ _)⟩

/-- What comes after the patterns of a clause. -/
lemma allQuiet_tests (h : draft.Tests condition t draft₁) (labels : List Label) :
    AllQuiet (differences labels ++ t) :=
  (allQuiet_differences labels).append h.allQuiet

/-- MATCH puts the labels of variables that are not in scope, markers and numbers.  A path in scope
afterwards was in scope before, or one of the patterns introduces it. -/
theorem adds_of_all (h : all false ps condition draft = .ok (t, draft₁)) :
    Adds (newLabels draft.scope ps) draft t draft₁ ∧ ∀ path shape, get? draft₁.scope.paths path =
      some shape →
        get? draft.scope.paths path = some shape ∨ Introduces ps draft t draft₁.next shape := by
  obtain ⟨m, draft₀, hps, h⟩ := stateT_bind_eq_ok.1 h
  obtain ⟨tests, htests, rfl⟩ := stateT_map_eq_ok.1 h
  have hmatches := (deliversFrom_patterns false ps).result _ hps
  have htests := (Drafting.deliversFrom_condition condition).result _ htests
  have hquiet := allQuiet_tests htests m.relationships
  rw [append_assoc]
  refine ⟨(hmatches.adds admits_newLabels marker_newLabels).append
    (AddsOnly.of_quiet hquiet htests.counts).toAdds, fun path shape hget => ?_⟩
  rw [htests.counts.scope] at hget
  refine (introduces_of_path ps hps path shape hget).imp And.left fun h =>
    h.append htests.counts.next fun _ element _ => ?_
  rw [puts_eq_empty fun s hs => (hquiet s hs).put]
  exact Set.notMem_empty _

lemma All.part (h : All true draft ps condition t draft₁) :
    Part (newLabels draft.scope ps) none draft [] t draft₁ := by
  obtain @⟨m, tests, draft₀, _, hpats, htests⟩ := h
  have hquiet := allQuiet_tests htests m.relationships
  have hrest : Part (newLabels draft.scope ps) none draft₀ [] (differences m.relationships ++ tests)
      draft₁ := by
    refine ⟨.of_quiet hquiet htests.counts, ?_, by simp⟩
    simp [htests.counts.scope, puts_eq_empty fun s hs => (hquiet s hs).put]
  rw [append_assoc]
  exact (hpats.part admits_newLabels).append hrest

lemma orderly_arm {matched : Traversal} (h : ∀ s ∈ matched, s.Steady) (vars : List String) :
    Orderly (matched ++ [.as (.token .unused), .select (slots vars)]) := by
  refine (neat_of_steady (forall_mem_append.2 ⟨h, ?_⟩)).orderly
  exact forall_mem_cons.2 ⟨.leaf rfl rfl, forall_mem_singleton.2 (.leaf rfl rfl)⟩

lemma orderly_nulls (vars : List String) : Orderly (nulls (slots vars) vars) := by
  refine (neat_of_steady (forall_mem_append.2 ⟨forall_mem_append.2 ⟨?_, ?_⟩, ?_⟩)).orderly
  · exact forall_mem_cons.2 ⟨.leaf rfl rfl, forall_mem_singleton.2 (.leaf rfl rfl)⟩
  · refine forall_mem_flatMap.2 fun var _ => ?_
    exact forall_mem_cons.2 ⟨.leaf rfl rfl, forall_mem_singleton.2 (.leaf rfl rfl)⟩
  · exact forall_mem_singleton.2 (.leaf rfl rfl)

lemma quiet_choice {matched : Traversal} (h : ∀ s ∈ matched, s.Steady) (vars : List String) :
    (choice matched vars).Quiet :=
  ⟨⟨rfl, forall_mem_cons.2 ⟨orderly_arm h vars, forall_mem_singleton.2 (orderly_nulls vars)⟩⟩, rfl⟩

/-- OPTIONAL MATCH binds the variables that it introduces behind the choice, and nothing else. -/
theorem Tries.addsOnly (h : Tries draft ps condition t draft₁) :
    AddsOnly (newLabels draft.scope ps) draft t draft₁ := by
  have hfront {matched : Traversal} {draft' : Draft}
      (hpart : Part (newLabels draft.scope ps) none draft [] matched draft') :
      AddsOnly (newLabels draft.scope ps) draft [choice matched (draft.introduced draft')]
      draft' := by
    have hchoice := quiet_choice hpart.steady (draft.introduced draft')
    refine ⟨⟨forall_mem_singleton.2 hchoice.steady, ?_, hpart.next, hpart.binds⟩, hpart.paths⟩
    rw [puts_eq_empty (forall_mem_singleton.2 hchoice.put)]
    simp
  cases h with
  | checks hall => exact hfront hall.part
  | @binds _ draft₀ hall =>
    obtain ⟨new, hscope, -, hput⟩ := hall.declares.optional rfl
    have hnew : draft.introduced draft₀ = keys new :=
      Draft.introduced_of_keys (hscope ▸ keys_append ..)
    refine (hfront hall.part).append ⟨⟨steady_rebinding _ _, fun l hl => ?_, Nat.le_succ _,
      fun _ hvar => hvar⟩, rfl⟩
    rcases puts_rebinding.1 hl with rfl | ⟨var, hvar, rfl⟩
    · exact .inr ⟨draft₀.next, le_rfl, Nat.lt_succ_self _, .inr rfl⟩
    · exact .inl ((hall.part.puts _ (hput var (hnew ▸ hvar))).resolve_right
        (by simp [Label.IsNumberedIn]))

end Matching

end CypherGremlin
