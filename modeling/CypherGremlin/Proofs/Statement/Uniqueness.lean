import CypherGremlin.Proofs.Statement.Names
import CypherGremlin.Proofs.Statement.Reading

/-!
# Which relationships of a clause are told apart

The relationships of one MATCH have to be different.  The steps of the clause say so by filters, one
for each pair of labels in the list that matching collects, and a relationship gets into the list
when its label is put.

* `Told` is what matching knows of the hops so far.  One hop preserves it, and so do the hops of a
  pattern and the patterns of a clause.
* `matchSteps_tellsApart` says that two hops which are not the same variable are told apart if and
  only if neither of their variables was in scope before the clause.
-/

namespace CypherGremlin

variable {isOptional : Bool} {scope now : Scope} {draft draft' : Draft} {t : Traversal}
  {l l' : Label} {ls : List Label}
  {hop : Hop} {m : Matched} {pairs : List (Hop × Label)} {v : String}

open List

namespace Matching

/-! ## Filters -/

/-- Keeps the rows in which the two labels hold different objects. -/
def differ (l l' : Label) : Step := .filter [.select [l], .whereLabel .neq l']

/-- A filter compares the two labels, in one of the two orders. -/
def TellsApart (t : Traversal) (l l' : Label) : Prop := differ l l' ∈ t ∨ differ l' l ∈ t

lemma differ_mem_differences (h : differ l l' ∈ differences ls) : l ∈ ls ∧ l' ∈ ls := by
  induction ls with
  | nil => simp [differences] at h
  | cons first rest ih =>
    simp only [differences, mem_append, mem_map, differ, Step.filter.injEq, cons.injEq,
      Step.select.injEq, Step.whereLabel.injEq] at h
    grind [differ]

/-- A label at the end of the list is compared with all others. -/
lemma differ_mem_differences_concat (h : l ∈ ls) : differ l l' ∈ differences (ls ++ [l']) := by
  induction ls with
  | nil => cases h
  | cons first rest ih =>
    simp only [cons_append, differences, mem_append, mem_map]
    obtain rfl | hrest := mem_cons.1 h
    · exact .inl ⟨l', by simp, rfl⟩
    · exact .inr (ih hrest)

lemma differences_subset (ls more : List Label) : differences ls ⊆ differences (ls ++ more) := by
  induction ls with
  | nil => simp [differences]
  | cons first rest ih =>
    rw [cons_append, differences, differences, map_append, append_assoc]
    exact append_subset.2 ⟨subset_append_left _ _,
      fun s hs => mem_append_right _ (mem_append_right _ (ih hs))⟩

lemma TellsApart.mono (h : TellsApart t l l') {t' : Traversal} (hsub : t ⊆ t') :
    TellsApart t' l l' :=
  h.imp (hsub ·) (hsub ·)

lemma tellsApart_differences (h : l ∈ ls) (h' : l' ∈ ls) (hne : l ≠ l') :
    TellsApart (differences ls) l l' := by
  induction ls with
  | nil => cases h
  | cons first rest ih =>
    have hrest := subset_append_right (rest.map (differ first)) (differences rest)
    obtain rfl | hl := mem_cons.1 h <;> obtain rfl | hl' := mem_cons.1 h'
    · exact absurd rfl hne
    · exact .inl (mem_append_left _ (mem_map.2 ⟨l', hl', rfl⟩))
    · exact .inr (mem_append_left _ (mem_map.2 ⟨l, hl, rfl⟩))
    · exact (ih hl hl').mono hrest

/-- A condition is not of this form: it compares labels only after it has put one. -/
lemma ne_differ_of_lowers {e : Expr} (h : e.Lowers scope .filter t) : .filter t ≠ differ l l' := by
  rw [differ, ne_eq, Step.filter.injEq]
  intro heq
  have hmem : ∀ s ∈ t, s = .select [l] ∨ s = .whereLabel .neq l' := by simp [heq]
  have hlast : t.getLast? = some (.whereLabel .neq l') := by rw [heq]; rfl
  cases h with
  | @hasLabels _ _ labels => cases labels <;> simp [Goal.ofTest, labelSteps] at heq
  | pattern _ htest =>
    obtain @⟨_, start, hops, -, -, hstart, hhops⟩ := htest
    generalize PatternOf.hops _ = pattern at hhops
    cases hhops with
    | nil =>
      obtain ⟨-, htests⟩ := hstart
      have hin : .whereLabel .neq l' ∈ labelSteps _ ++ _ ++ [].flatten :=
        (cons.inj heq).2 ▸ mem_singleton_self _
      simp only [flatten_nil, append_nil, mem_append, labelSteps, mem_map, reduceCtorEq, and_false,
        exists_false, false_or] at hin
      obtain ⟨_, -, -, _, -, hhas⟩ := exists_mem_of_forall₂ htests _ hin
      cases hhas
    | cons hfirst =>
      obtain @⟨relTests, joined, nodeTests, -, -, -, -⟩ := hfirst
      have hedge :=
        hmem _ (mem_cons_of_mem _ (mem_append_right start (mem_append_left _ mem_cons_self)))
      revert hedge
      cases HopOf.rel _ |>.direction <;> simp [Direction.edgeStep]
  | compare _ _ n =>
    obtain h | h := hmem (.as (.token (.generated n))) (by simp [Goal.ofTest]) <;> cases h
  | _ => simp [Goal.ofValue, Goal.ofTest, Traversal.always, Traversal.never, Step.isNull,
      Step.notNull] at hlast

end Matching

/-! ## What matching knows -/

namespace Draft.Labels

variable {kind : VarKind} {nullable : Bool} {var : Option String}

lemma eq_named_iff (h : draft.Labels kind nullable var l draft') : l = .named v ↔ var = some v := by
  cases h <;> simp

lemma binding?_or (h : draft.Labels kind nullable var l draft') {binding : Binding}
    (hv : draft'.scope.binding? v = some binding) : draft.scope.binding? v = some binding ∨
      l = .named v := by
  cases h with
  | number => exact .inl hv
  | var =>
    obtain ⟨rfl, -⟩ | hv := Table.of_get?_put hv
    · exact .inr rfl
    · exact .inl hv

end Draft.Labels

/-- The hop stands in the steps, and its relationship goes by the label: the label is put or
compared with behind the edges that the hop follows. -/
structure Hop.GoesBy (t : Traversal) (hop : Hop) (l : Label) : Prop where
  name : ∀ v, l = .named v ↔ hop.rel.var = some v
  stands : ∃ tests mark, (mark = .as l ∨ mark = .whereLabel .eq l) ∧
    hop.rel.direction.edgeStep hop.rel.types :: tests ++ [mark] <:+: t

/-- The relationship is not one that the scope holds. -/
def Hop.IsNew (scope : Scope) (hop : Hop) : Prop := ∀ v ∈ hop.rel.var, scope.binds v = false

/-- The relationships of the hops are the same variable. -/
def Hop.Same (hop hop' : Hop) : Prop := ∃ v, hop.rel.var = some v ∧ hop'.rel.var = some v

namespace Matching

/-- What matching knows of some hops and their labels.  The first scope is the one before the
clause. -/
structure Told (scope : Scope) (pairs : List (Hop × Label)) (m : Matched) (now : Scope) : Prop where
  goesBy : ∀ p ∈ pairs, Hop.GoesBy m.steps p.1 p.2
  grows : ∀ v, scope.binds v = true → now.binds v = true
  free : ∀ v, .named v ∈ m.relationships → scope.binds v = false
  /-- A variable of this clause that can be a relationship is one. -/
  kinds : ∀ v binding, now.binding? v = some binding → scope.binds v = false →
    binding.kind = .node ∨ binding.kind = .path ∨ .named v ∈ m.relationships
  listed : ∀ p ∈ pairs, Hop.IsNew scope p.1 → p.2 ∈ m.relationships
  apart : pairs.Pairwise fun p q => ¬ Hop.Same p.1 q.1 → Hop.IsNew scope p.1 → Hop.IsNew scope q.1 →
    TellsApart (differences m.relationships) p.2 q.2

namespace Told

lemma refl (scope : Scope) : Told scope [] {} scope where
  goesBy := by simp
  grows := by simp
  free := by simp
  kinds v binding hbind hfree := by simp [Scope.binds_of_binding? hbind] at hfree
  listed := by simp
  apart := .nil

lemma steps (h : Told scope pairs m now) (t : Traversal) :
    Told scope pairs ⟨m.steps ++ t, m.relationships⟩ now :=
  { h with
    goesBy := fun p hp => ⟨(h.goesBy p hp).name, by
      obtain ⟨tests, mark, hmark, hstands⟩ := (h.goesBy p hp).stands
      exact ⟨tests, mark, hmark, hstands.trans (prefix_append _ _).isInfix⟩⟩ }

lemma declare (h : Told scope pairs m now) {kind : VarKind} (nullable : Bool)
    (hkind : kind = .node ∨ kind = .path) {now' : Scope}
    (hnow : now'.vars = (now.declare v kind nullable).vars) : Told scope pairs m now' :=
  { h with
    grows := fun u hu => by
      rw [Scope.binds, hnow]
      exact Scope.binds_declare.2 (.inr (h.grows u hu))
    kinds := fun u binding hbind hfree => by
      rw [Scope.binding?, hnow] at hbind
      obtain ⟨rfl, rfl⟩ | hbind := Table.of_get?_put hbind
      · exact hkind.imp_right .inl
      · exact h.kinds u binding hbind hfree }

lemma node (h : Told scope pairs m draft.scope) {place : Place} (hplace : place.kind = .node)
    {var : Option String} {tests : Traversal} {new : List Label}
    (hnode : Element isOptional draft place var tests l t new draft') :
    Told scope pairs ⟨m.steps ++ t, m.relationships⟩ draft'.scope := by
  cases hnode with
  | known => exact h.steps _
  | new _ hlabel =>
    cases hlabel with
    | number => exact h.steps _
    | var => exact (h.steps _).declare isOptional (.inl hplace) rfl

/-- One more hop, of which the rest is known already. -/
lemma concat (h : Told scope pairs m now) (hgoes : Hop.GoesBy m.steps hop l)
    (hlisted : Hop.IsNew scope hop → l ∈ m.relationships)
    (happart : ∀ p ∈ pairs, ¬ Hop.Same p.1 hop → Hop.IsNew scope p.1 → Hop.IsNew scope hop →
      TellsApart (differences m.relationships) p.2 l) : Told scope (pairs ++ [(hop, l)]) m now :=
  { h with
    goesBy := forall_mem_append.2 ⟨h.goesBy, forall_mem_singleton.2 hgoes⟩
    listed := forall_mem_append.2 ⟨h.listed, forall_mem_singleton.2 hlisted⟩
    apart := pairwise_append.2 ⟨h.apart, pairwise_singleton _ _,
      fun p hp => forall_mem_singleton.2 (happart p hp)⟩ }

/-- A relationship that is in scope.  If it has come into scope in this clause, its label is in the
list. -/
lemma known (h : Told scope pairs m now) {binding : Binding} (hvar : hop.rel.var = some v)
    (hbound : now.binding? v = some binding) (hkind : binding.kind ≠ .node ∧ binding.kind ≠ .path)
    (hgoes : Hop.GoesBy m.steps hop (.named v)) :
    Told scope (pairs ++ [(hop, .named v)]) m now := by
  have hlisted (hnew : Hop.IsNew scope hop) : .named v ∈ m.relationships := by
    simpa [hkind] using h.kinds v binding hbound (hnew v hvar)
  refine h.concat hgoes hlisted fun p hp hsame hp' hnew =>
    tellsApart_differences (h.listed p hp hp') (hlisted hnew) ?_
  exact fun heq => hsame ⟨v, ((h.goesBy p hp).name v).1 heq, hvar⟩

lemma new (h : Told scope pairs m draft.scope) (hfree : Hop.IsNew draft.scope hop)
    (hlabel : draft.Labels .relationship isOptional hop.rel.var l draft')
    (hgoes : Hop.GoesBy m.steps hop l) :
    Told scope (pairs ++ [(hop, l)]) ⟨m.steps, m.relationships ++ [l]⟩ draft'.scope := by
  refine concat { h with
    grows := fun u hu => (hlabel.gains.binds u).2 (.inl (h.grows u hu))
    free := fun u hu => ?_
    kinds := fun u binding hu hscope => ?_
    listed := fun p hp hnew => mem_append_left _ (h.listed p hp hnew)
    apart := h.apart.imp fun hpair hsame hp hq => (hpair hsame hp hq).mono
      (differences_subset _ _) } hgoes (fun _ => mem_append_right _ (mem_singleton_self l))
      fun p hp _ hnew _ => .inl (differ_mem_differences_concat (h.listed p hp hnew))
  · obtain hu | hu := mem_append.1 hu
    · exact h.free u hu
    · have hunbound := hfree u (((hgoes.name u).1 (mem_singleton.1 hu).symm))
      exact Bool.eq_false_iff.2 fun hbound => by simp [h.grows u hbound] at hunbound
  · obtain hu | rfl := hlabel.binding?_or hu
    · exact (h.kinds u binding hu hscope).imp_right (.imp_right (mem_append_left _))
    · exact .inr (.inr (mem_append_right _ (mem_singleton_self _)))

lemma relationship (h : Told scope pairs m draft.scope) {tests : Traversal} {new : List Label}
    (hrel : Element isOptional draft .relationship hop.rel.var
      (hop.rel.direction.edgeStep hop.rel.types :: tests) l t
      new draft') :
    Told scope (pairs ++ [(hop, l)]) ⟨m.steps ++ t, m.relationships ++ new⟩ draft'.scope := by
  cases hrel with
  | @known v binding hvar hbound hexpected =>
    have hkind : binding.kind ≠ .node ∧ binding.kind ≠ .path := by
      rcases Scope.kind_of_expectKind hexpected with h | h | h <;> simp [h, Place.kind]
    rw [append_nil]
    exact (h.steps _).known hvar hbound hkind
      ⟨fun u => by simp [hvar], tests, _, .inr rfl, (suffix_append _ _).isInfix⟩
  | new hfree hlabel =>
    exact (h.steps _).new hfree hlabel
      ⟨fun u => hlabel.eq_named_iff, tests, _, .inl rfl, (suffix_append _ _).isInfix⟩

end Told

lemma Crosses.told {path : Option String} {position : Nat} {elements : List PathElement}
    {m' : Matched} (hhop : Crosses isOptional path position draft hop elements m' draft')
    (h : Told scope pairs m draft.scope) :
    ∃ l, Told scope (pairs ++ [(hop, l)]) (m.append m') draft'.scope := by
  obtain @⟨_, _, _, _, l, _, _, _, _, _, -, -, hrel, -, hnode⟩ := hhop
  refine ⟨l, ?_⟩
  have hrel := (h.relationship hrel).steps (marking path position ++ [hop.rel.direction.nodeStep])
  simpa [Matched.append] using hrel.node rfl hnode

lemma CrossesAll.told {path : Option String} {position : Nat} {hops : List Hop}
    {elements : List PathElement} {m' : Matched}
    (hhops : CrossesAll isOptional path position draft hops elements m' draft')
    (h : Told scope pairs m draft.scope) :
    ∃ more, more.map Prod.fst = hops ∧ Told scope (pairs ++ more) (m.append m') draft'.scope := by
  induction hhops generalizing pairs m with
  | nil => exact ⟨[], rfl, by simpa [Matched.append] using h⟩
  | cons hhop _ ih =>
    obtain ⟨l, htold⟩ := hhop.told h
    obtain ⟨more, rfl, htold⟩ := ih htold
    exact ⟨(_, l) :: more, rfl, by simpa [Matched.append] using htold⟩

lemma MatchesAll.told {ps : List Pattern} {m' : Matched}
    (hps : MatchesAll isOptional draft ps m' draft') (h : Told scope pairs m draft.scope) :
    ∃ more, more.map Prod.fst = ps.flatMap (·.hops) ∧ Told scope (pairs ++ more)
    (m.append m') draft'.scope := by
  induction hps generalizing pairs m with
  | nil => exact ⟨[], rfl, by simpa [Matched.append] using h⟩
  | @cons draft draft₁ _ p _ matched _ hp _ ih =>
    have hp : ∃ more, more.map Prod.fst = p.hops ∧
        Told scope (pairs ++ more) (m.append matched) draft₁.scope := by
      cases hp with
      | unnamed _ hstart hhops =>
        obtain ⟨-, hstart⟩ := hstart
        obtain ⟨more, hmore, htold⟩ := hhops.told (h.node rfl hstart)
        exact ⟨more, hmore, by simpa [Matched.append] using htold⟩
      | @named path _ _ _ _ _ _ _ _ hstart hhops =>
        obtain ⟨-, hstart⟩ := hstart
        obtain ⟨more, hmore, htold⟩ :=
          hhops.told ((h.node rfl hstart).steps [.as (.token (.pathStart path))])
        refine ⟨more, hmore, ?_⟩
        simp only [Matched.append, append_assoc] at htold ⊢
        exact htold.declare false (.inr rfl) rfl
    obtain ⟨more, hmore, htold⟩ := hp
    obtain ⟨others, hothers, htold⟩ := ih htold
    exact ⟨more ++ others, by simp [hmore, hothers], by simpa [Matched.append] using htold⟩

/-- The patterns and the condition.  Only the differences of the labels in the list tell two labels
apart. -/
lemma All.tellsApart {ps : List Pattern} {condition : Option Expr}
    (h : All isOptional draft ps condition t draft') :
    ∃ pairs : List (Hop × Label), pairs.map Prod.fst = ps.flatMap (·.hops) ∧
      (∀ p ∈ pairs, Hop.GoesBy t p.1 p.2) ∧ pairs.Pairwise fun p q => ¬ Hop.Same p.1 q.1 →
        (TellsApart t p.2 q.2 ↔ Hop.IsNew draft.scope p.1 ∧ Hop.IsNew draft.scope q.1) := by
  obtain @⟨m, tests, _, _, hpats, htests⟩ := h
  obtain ⟨pairs, hpairs, htold⟩ := hpats.told (.refl draft.scope)
  -- Neither patterns nor the condition hold such a filter of their own.
  have hdiffer {l l' : Label} (h : differ l l' ∈ m.steps ++ differences m.relationships ++ tests) :
      l ∈ m.relationships ∧ l' ∈ m.relationships := by
    obtain (h | h) | h := (mem_append.1 h).imp_left mem_append.1
    · simpa [differ, Step.children] using hpats.walks _ h
    · exact differ_mem_differences h
    · cases htests with
      | none => cases h
      | some htest => exact absurd (mem_singleton.1 h).symm (ne_differ_of_lowers htest.lowers)
  have hnew {p : Hop × Label} (hp : p ∈ pairs) (hmem : p.2 ∈ m.relationships) : Hop.IsNew
      draft.scope p.1 :=
    fun v hv => htold.free v (((htold.goesBy p hp).name v).2 hv ▸ hmem)
  refine ⟨pairs, hpairs, fun p hp => ⟨(htold.goesBy p hp).name, ?_⟩, ?_⟩
  · obtain ⟨edges, mark, hmark, hstands⟩ := (htold.goesBy p hp).stands
    exact ⟨edges, mark, hmark,
      hstands.trans ((prefix_append _ _).trans (prefix_append _ _)).isInfix⟩
  · refine htold.apart.imp_of_mem fun {p q} hp hq hapart hsame => ⟨fun h => ?_, fun h => ?_⟩
    · obtain ⟨hmem, hmem'⟩ : p.2 ∈ m.relationships ∧ q.2 ∈ m.relationships :=
        h.elim hdiffer fun h => (hdiffer h).symm
      exact ⟨hnew hp hmem, hnew hq hmem'⟩
    · exact (hapart hsame h.1 h.2).mono fun s hs => mem_append_left _ (mem_append_right _ hs)

/-- The steps run the patterns of a clause: they are all of the clause, or an arm of the choice that
it begins with. -/
def Runs (isOptional : Bool) (body t : Traversal) : Prop :=
  if isOptional then ∃ ends other rest, t = .coalesce [body ++ ends, other] :: rest else t = body

end Matching

open Matching

/-- Each hop of a clause goes by a label.  Two hops that are not the same variable are told apart if
and only if neither of them is a variable that was in scope before the clause. -/
theorem matchSteps_tellsApart {ps : List Pattern} {condition : Option Expr}
    (h : matchSteps isOptional ps condition draft = .ok (t, draft')) :
    ∃ (body : Traversal) (pairs : List (Hop × Label)), Runs isOptional body t ∧
      pairs.map Prod.fst = ps.flatMap (·.hops) ∧ (∀ p ∈ pairs, Hop.GoesBy body p.1 p.2) ∧
      pairs.Pairwise fun p q => ¬ Hop.Same p.1 q.1 →
        (TellsApart body p.2 q.2 ↔ Hop.IsNew draft.scope p.1 ∧ Hop.IsNew draft.scope q.1) := by
  cases isOptional with
  | false =>
    obtain ⟨pairs, hpairs⟩ := ((deliversFrom_all false ps condition).result _ h).tellsApart
    exact ⟨t, pairs, rfl, hpairs⟩
  | true =>
    have htries : Tries draft ps condition t draft' :=
      (deliversFrom_optionally ps condition).result _ h
    cases htries with
    | checks hall | binds hall =>
      obtain ⟨pairs, hpairs⟩ := hall.tellsApart
      exact ⟨_, pairs, ⟨_, _, _, rfl⟩, hpairs⟩

/-- A relationship. -/
def encounter : Pattern :=
  { start := { var := some "a" }, hops := [⟨{ var := some "r" }, { var := some "b" }⟩] }

/-- The same relationship, and two others behind it. -/
def passage : Pattern where
  start := { var := some "c" }
  hops := [⟨{ var := some "r" }, { var := some "d" }⟩, ⟨{ var := some "s" }, { var := some "e" }⟩,
    ⟨{}, {}⟩]

/-- The draft after the relationship has been matched. -/
def Draft.related : Draft :=
  { scope
    := { vars := [("a", ⟨.node, false⟩), ("r", ⟨.relationship, false⟩), ("b", ⟨.node, false⟩)] } }

theorem matchSteps_tellsApart_passage :
    ∃ t draft', matchSteps false [passage] none .related = .ok (t, draft') ∧
    ∃ l, Hop.GoesBy t ⟨{}, {}⟩ l ∧ TellsApart t (.named "s") l ∧ ¬ TellsApart t (.named "r") l := by
  obtain ⟨⟨t, draft'⟩, h⟩ : ∃ r, matchSteps false [passage] none .related = .ok r := ⟨_, rfl⟩
  obtain ⟨body, pairs, rfl, hpairs, hgoes, happart⟩ := matchSteps_tellsApart h
  obtain ⟨⟨_, r⟩, rest, rfl, rfl, hrest⟩ := map_eq_cons_iff.1 hpairs
  obtain ⟨⟨_, s⟩, last, rfl, rfl, hlast⟩ := map_eq_cons_iff.1 hrest
  obtain ⟨⟨_, l⟩, none, rfl, rfl, -⟩ := map_eq_cons_iff.1 hlast
  simp only [forall_mem_cons, pairwise_cons] at hgoes happart
  obtain ⟨hr, hs, hl, -⟩ := hgoes
  obtain rfl := (hr.name "r").2 rfl
  obtain rfl := (hs.name "s").2 rfl
  refine ⟨_, draft', h, l, hl, (happart.2.1.1 (by simp [Hop.Same])).2 ⟨?_, by simp [Hop.IsNew]⟩,
    fun hapart => ?_⟩
  · rintro v ⟨⟩
    rfl
  · have hnew := ((happart.1.2.1 (by simp [Hop.Same])).1 hapart).1 "r" rfl
    exact absurd hnew (by decide)

/-- A relationship that an earlier clause has matched is not compared with the others. -/
theorem not_tellsApart_related :
    ∃ t₀ t draft', matchSteps false [encounter] none {} = .ok (t₀, .related) ∧
    matchSteps false [passage] none .related = .ok (t, draft') ∧ ¬ TellsApart t (.named "r")
    (.named "s") := by
  refine ⟨_, _, _, rfl, rfl, ?_⟩
  simp [TellsApart, differ, Matched.append, differences, Direction.edgeStep, Direction.nodeStep]

end CypherGremlin
