import CypherGremlin.Proofs.Statement.Declares
import CypherGremlin.Proofs.Statement.Draft

/-!
# Formed patterns

Matching checks the variables, labels, types and keys of a pattern before it puts them into steps,
and the pattern's values are constants or parameters.  The variables of a pattern become labels as
the steps walk along it.

An optional match is special, because labels that are put inside a choice are not visible after it:
the variables that the pattern has introduced are bound again, and a pattern with a name is refused.

`Matching.All.continues` and `Matching.Tries.continues` are the results for the whole clause.
-/

namespace CypherGremlin

variable {T : Sources} {F V : Set Label} {ps : List Pattern} {p : Pattern} {condition : Option Expr}
  {draft draft₁ draft₂ : Draft} {isOptional : Bool} {t : Traversal} {l : Label}

open List Traversal

lemma Pattern.forall_mem_values {P : Expr → Prop} : (∀ e ∈ p.values, P e) ↔
    (∀ entry ∈ p.start.properties, P entry.2) ∧
      ∀ hop ∈ p.hops, (∀ entry ∈ hop.rel.properties, P entry.2) ∧
      ∀ entry ∈ hop.node.properties, P entry.2 := by
  simp only [Pattern.values, forall_mem_map, forall_mem_append, forall_mem_flatMap]

namespace Matching

/-! ## Patterns -/

section

variable {path : Option String} {position : Nat} {es es' : List PathElement}
  {matched m m' : Matched}

/-- What part of a pattern leaves behind: the elements of a path and the relationships that must
differ are visible, and the elements of a named path are marked. -/
structure Leaves (T : Sources) (V F : Set Label) (path : Option String) (es : List PathElement)
    (matched : Matched) (draft : Draft) : Prop where
  continues : Continues T V F matched.steps draft
  elements : ∀ element ∈ es, element.label.IsVisibleIn (V ∪ puts matched.steps)
  relationships : ∀ l ∈ matched.relationships, l.IsVisibleIn (V ∪ puts matched.steps)
  marked : path.isSome = true → ∃ hops : List (String × Label),
    es = hops.flatMap hopElements ∧ ∀ hop ∈ hops, hop.2.IsElement

lemma Leaves.append (h : Leaves T V F path es m draft₁)
    (h' : Leaves T (V ∪ puts m.steps) (F ∪ fills m.steps) path es' m' draft₂) :
    Leaves T V F path (es ++ es') (m.append m') draft₂ := by
  have hvis : V ∪ puts (m.append m').steps = V ∪ puts m.steps ∪ puts m'.steps := by
    rw [Matched.append, puts_append, Set.union_assoc]
  refine ⟨h'.continues.append h.continues.formed, ?_, ?_, fun hpath => ?_⟩
  · rw [hvis]
    exact forall_mem_append.2 ⟨fun e he => (h.elements e he).mono Set.subset_union_left,
      h'.elements⟩
  · rw [hvis]
    exact forall_mem_append.2 ⟨fun l hl => (h.relationships l hl).mono Set.subset_union_left,
      h'.relationships⟩
  · obtain ⟨hops, rfl, hhops⟩ := h.marked hpath
    obtain ⟨hops', rfl, hhops'⟩ := h'.marked hpath
    exact ⟨hops ++ hops', by rw [flatMap_append], forall_mem_append.2 ⟨hhops, hhops'⟩⟩

lemma Element.continues {place : Place} {var : Option String} {tests : Traversal} {new : List Label}
    (h : Element isOptional draft place var tests l t new draft₁) (hdraft : draft.Holds V F)
    (htests : ∀ s ∈ tests, s.Reads T draft.scope) : l.IsElement ∧ l.IsVisibleIn (V ∪ puts t) ∧
      Continues T V F t draft₁ ∧ ∀ l ∈ new, l.IsVisibleIn (V ∪ puts t) := by
  cases h with
  | @known v binding _ hbound =>
    have hbinds := Scope.binds_of_binding? hbound
    refine ⟨.inl ⟨v, rfl⟩, (hdraft.visible hbinds).mono Set.subset_union_left,
      .of_holds (hdraft.reads ?_) hdraft, forall_mem_nil _⟩
    cases place with
    | start => exact forall_mem_append.2 ⟨Composed.bindingSelect hbound, htests⟩
    | relationship =>
      exact forall_mem_append.2 ⟨htests, forall_mem_singleton.2 (Composed.join hbinds)⟩
    | node => exact forall_mem_cons.2 ⟨Composed.join hbinds, htests⟩
  | new _ hl =>
    have htests := hdraft.reads htests
    have hmeet (a : Traversal) (ha : Formed T false V a) : l.IsElement ∧
        l.IsVisibleIn (V ∪ puts (a ++ [.as l])) ∧
        Continues T V F (a ++ [.as l]) draft₁ ∧
        ∀ l' ∈ [l], l'.IsVisibleIn (V ∪ puts (a ++ [.as l])) :=
      ⟨hl.isElement, hl.visible V a, hl.continues ha hdraft,
        forall_mem_singleton.2 (hl.visible V a)⟩
    cases place with
    | start => exact hmeet (.V :: tests) (.andThen (a := [.V]) (.leaf rfl trivial rfl) htests)
    | relationship | node => exact hmeet tests htests

/-- A hop is its relationship, a marker if the path has a name, and its node.  The labels of both
can be selected afterwards. -/
lemma Crosses.leaves {hop : Hop} (h : Crosses isOptional path position draft hop es matched draft₁)
    (hdraft : draft.Holds V F) (hrelT : ∀ entry ∈ hop.rel.properties, entry.2.Supplied T)
    (hnodeT : ∀ entry ∈ hop.node.properties, entry.2.Supplied T) :
    Leaves T V F path es matched draft₁ := by
  obtain @⟨_, relSteps, _, nodeSteps, _, _, _, _, draft₂, _, htypes, hrelTests, hrel, hnodeTests,
    hnode⟩ := h
  have hedge : (hop.rel.direction.edgeStep hop.rel.types).Reads T draft.scope :=
    Composed.edgeStep (fun type htype => .inl (htypes type htype)) _
  obtain ⟨-, hrelLabel, hrel, hnew⟩ := hrel.continues hdraft
    (forall_mem_cons.2 ⟨hedge, Composed.propertyTests hrelTests hrelT⟩)
  have hmarking : Formed T false (V ∪ puts relSteps) (marking path position) := by
    cases path with
    | none => exact .nil
    | some path => exact .put (Label.canStay_token (by simp) (by simp) (by simp)) rfl
  have hmarked := hrel.andThen hmarking (.refl _)
  have hfront :=
    hmarked.andThen
    (hmarked.holds.reads (forall_mem_singleton.2 (Composed.nodeStep hop.rel.direction))) (.refl _)
  obtain ⟨helem, hlabel, hnode, -⟩ :=
    hnode.continues hfront.holds (Composed.nodeTests hnodeTests hnodeT)
  -- The steps before the node, behind which the relationship has its label.
  set front := relSteps ++ marking path position ++ [hop.rel.direction.nodeStep]
  have hvis : V ∪ puts (front ++ nodeSteps) = V ∪ puts front ∪ puts nodeSteps := by
    rw [puts_append, Set.union_assoc]
  have hputs : puts (relSteps ++ marking path position) ⊆ puts front := puts_subset_append _ _
  have hrelPuts : V ∪ puts relSteps ⊆ V ∪ puts front ∪ puts nodeSteps :=
    (Set.union_subset_union_right V ((puts_subset_append _ _).trans hputs)).trans
      Set.subset_union_left
  refine ⟨hnode.append hfront.formed, ?_, ?_, fun hsome => ?_⟩
  · rw [hvis]
    refine forall_mem_cons.2 ⟨?_, forall_mem_singleton.2 hlabel⟩
    cases path with
    | none => exact hrelLabel.mono hrelPuts
    | some path =>
      exact ⟨.inl (.inr (hputs (by simp [mem_puts, marker, marking]))), Label.clean_token _⟩
  · rw [hvis]
    exact fun l hl => (hnew l hl).mono hrelPuts
  · obtain ⟨path, rfl⟩ := Option.isSome_iff_exists.1 hsome
    exact ⟨[(_, _)], rfl, forall_mem_singleton.2 helem⟩

lemma CrossesAll.leaves {hops : List Hop}
    (h : CrossesAll isOptional path position draft hops es matched draft₁)
    (hdraft : draft.Holds V F)
    (hT : ∀ hop ∈ hops, (∀ entry ∈ hop.rel.properties, entry.2.Supplied T) ∧
      ∀ entry ∈ hop.node.properties, entry.2.Supplied T) : Leaves T V F path es matched draft₁ := by
  induction h generalizing V F with
  | nil => exact ⟨.of_holds .nil hdraft, by simp, by simp, fun _ => ⟨[], rfl, by simp⟩⟩
  | cons hhop _ ih =>
    obtain ⟨hhopT, hrestT⟩ := forall_mem_cons.1 hT
    have hleaves := hhop.leaves hdraft hhopT.1 hhopT.2
    exact hleaves.append (ih hleaves.continues.holds hrestT)

lemma Starts.continues {pattern : NodePattern} (h : Starts isOptional draft pattern t draft₁)
    (hdraft : draft.Holds V F) (hT : ∀ entry ∈ pattern.properties, entry.2.Supplied T) :
    Continues T V F t draft₁ := by
  obtain ⟨htests, helem⟩ := h
  obtain ⟨-, -, hcont, -⟩ := helem.continues hdraft (Composed.nodeTests htests hT)
  exact hcont

/-- A pattern, whose name counts as visible if it has one. -/
lemma Matches.leaves (h : Matches isOptional draft p matched draft₁) (hdraft : draft.Holds V F)
    (hpath : isOptional = false → ∀ path ∈ p.path, .named path ∈ V)
    (hT : ∀ e ∈ p.values, e.Supplied T) : Leaves T V F none [] matched draft₁ := by
  obtain ⟨hstartT, hhopsT⟩ := Pattern.forall_mem_values.1 hT
  cases h with
  | unnamed _ hstart hhops =>
    have hcont := hstart.continues hdraft hstartT
    have hstart : Leaves T V F none [] ⟨_, []⟩ _ := ⟨hcont, by simp, by simp, by simp⟩
    have hall := hstart.append (hhops.leaves hcont.holds hhopsT)
    exact ⟨hall.continues, by simp, hall.relationships, by simp⟩
  | @named path steps elements _ _ _ hname hplain hreq hstart hhops =>
    have hcont := hstart.continues hdraft hstartT
    have hmarker : Formed T false (V ∪ puts steps) [.as (.token (.pathStart path))] :=
      .put (Label.canStay_token (by simp) (by simp) (by simp)) rfl
    have hstart : Leaves T V F (some path) [] ⟨steps ++ [.as (.token (.pathStart path))], []⟩ _ :=
      ⟨hcont.andThen hmarker (.refl _), by simp, by simp, fun _ => ⟨[], rfl, by simp⟩⟩
    have hleaves := hhops.leaves hstart.continues.holds hhopsT
    have hall := hstart.append hleaves
    obtain ⟨hops, helems, hmarks⟩ := hleaves.marked rfl
    have hholds := hall.continues.holds.declarePath ⟨.inl (hpath hreq path hname), hplain⟩
      (forall_mem_cons.2
      ⟨⟨.inr (by simp [mem_puts, Matched.append]), Label.clean_token _⟩, hall.elements⟩)
      ⟨path, hops, congrArg (_ :: ·) helems, hmarks⟩
    exact ⟨⟨hall.continues.formed, hholds⟩, by simp, hall.relationships, by simp⟩

lemma MatchesAll.leaves (h : MatchesAll isOptional draft ps matched draft₁)
    (hdraft : draft.Holds V F)
    (hpaths : isOptional = false → ∀ p ∈ ps, ∀ path ∈ p.path, .named path ∈ V)
    (hT : ∀ p ∈ ps, ∀ e ∈ p.values, e.Supplied T) : Leaves T V F none [] matched draft₁ := by
  induction h generalizing V F with
  | nil => exact ⟨.of_holds .nil hdraft, by simp, by simp, by simp⟩
  | cons hp _ ih =>
    obtain ⟨hpT, hrestT⟩ := forall_mem_cons.1 hT
    have hleaves := hp.leaves hdraft (fun hopt => (forall_mem_cons.1 (hpaths hopt)).1) hpT
    exact hleaves.append (ih hleaves.continues.holds (fun hopt p hp path hpath =>
      .inl ((forall_mem_cons.1 (hpaths hopt)).2 p hp path hpath)) hrestT)

end

/-- The tests that relationships differ select them one by one. -/
lemma formed_differences {labels : List Label} (h : ∀ l ∈ labels, l.IsVisibleIn V) :
    Formed T false V (differences labels) := by
  induction labels with
  | nil => exact .nil
  | cons l rest ih =>
    obtain ⟨hl, hrest⟩ := forall_mem_cons.1 h
    refine .andThen (.of_forall (forall_mem_map.2 fun r hr => ?_)) (ih hrest)
    exact .frame rfl trivial
      (forall_mem_singleton.2 ((Formed.select hl).andThen (.whereLabel (hrest r hr) _)))

lemma All.continues (h : All isOptional draft ps condition t draft₁) (hdraft : draft.Holds V F)
    (hpaths : isOptional = false → ∀ p ∈ ps, ∀ path ∈ p.path, .named path ∈ V)
    (hps : ∀ p ∈ ps, ∀ e ∈ p.values, e.Supplied T) (hT : ∀ e ∈ condition, e.Within T) :
    Continues T V F t draft₁ := by
  obtain ⟨hpats, htests⟩ := h
  have hleaves := hpats.leaves hdraft hpaths hps
  have hdifferences := hleaves.continues.andThen (formed_differences hleaves.relationships)
    (.refl _)
  refine hdifferences.andThen ((htests.formed hleaves.continues.holds hT).mono ?_) htests.counts
  rw [puts_append, ← Set.union_assoc]
  exact Set.subset_union_left

/-! ## Optional matches -/

variable {vars : List String} {matched : Traversal}

lemma mem_slots : l ∈ slots vars ↔ (∃ var ∈ vars, l = .named var) ∨ l = .token .unused := by
  simp [slots, eq_comm]

lemma formed_slots (hvars : ∀ var ∈ vars, (Label.named var).IsVisibleIn V)
    (hunused : .token .unused ∈ V) : Formed T false V [.select (slots vars)] := by
  have hstands : (Step.select (slots vars)).StandsAnywhere := by
    rcases vars with _ | ⟨var, _ | ⟨var', rest⟩⟩ <;>
      simp [slots, Step.StandsAnywhere, Label.isSynthetic, Token.isSynthetic]
  have hslots : ∀ l ∈ slots vars, l.IsVisibleIn V := by
    intro l hl
    rcases mem_slots.1 hl with ⟨var, hvar, rfl⟩ | rfl
    · exact hvars var hvar
    · exact ⟨hunused, Label.clean_token _⟩
  exact ⟨.leaf (fun l hl => (hslots l hl).2) rfl, .step hstands (fun l hl => (hslots l hl).1)
    (forall_mem_nil _)⟩

lemma formed_unused : Formed T false V [.as (.token .unused)] :=
  .put (Label.canStay_token (by simp) (by simp) (by simp)) rfl

lemma formed_nulls (hvars : ∀ var ∈ vars, Plain var) :
    Formed T false V (nulls (slots vars) vars) := by
  have hunused : Formed T false V [.constant (.token .nonexistent), .as (.token .unused)] :=
    .andThen (a := [_]) (.leaf rfl (.token _) rfl) formed_unused
  have hnulls : Formed T false V (vars.flatMap fun var => [.constant .null, .as (.named var)]) :=
    .flatMap fun var hvar =>
      .andThen (a := [_]) (.leaf rfl .null rfl) (.put (Label.canStay_named (hvars var hvar)) rfl)
  refine (hunused.andThen hnulls).append (formed_slots (fun var hvar => ⟨.inr ?_, hvars var hvar⟩)
    (.inr ?_))
  · simp [mem_puts, hvar]
  · simp [mem_puts]

lemma formed_choice (hmatched : Formed T false V matched)
    (hvars : ∀ var ∈ vars, (Label.named var).IsVisibleIn (V ∪ puts matched)) :
    Formed T false V [choice matched vars] := by
  have hfound : Formed T false V (matched ++ [.as (.token .unused), .select (slots vars)]) :=
    hmatched.append
      (formed_unused.append
        (formed_slots (fun var hvar => (hvars var hvar).mono Set.subset_union_left)
      (.inr (by simp))))
  refine .frame rfl (cons_ne_nil _ _) (forall_mem_cons.2 ⟨hfound.inner, forall_mem_singleton.2 ?_⟩)
  exact (formed_nulls fun var hvar => (hvars var hvar).2).inner

lemma fills_choice (matched : Traversal) (vars : List String) (rest : Traversal) :
    fills matched ⊆ fills (choice matched vars :: rest) := by
  intro l hl
  have harm : l ∈ fills (matched ++ [.as (.token .unused), .select (slots vars)]) := by
    rw [fills_append]
    exact .inl hl
  simp only [fills, Set.mem_ofPred_eq, walk, Step.walk_eq, cons_append, mem_cons, mem_append,
    mem_flatMap]
  exact .inr (.inl ⟨_, mem_cons_self, harm⟩)

/-- Labels inside the choice are not visible after it, but those that were visible before still are,
and variables are bound again. -/
lemma holds_choice (h : draft.Holds V F) (hall : All true draft ps condition matched draft₁)
    (hmatched : Continues T V F matched draft₁) {rest : Traversal}
    (hvars : ∀ var ∈ draft.introduced draft₁, .named var ∈ puts rest) :
    draft₁.Holds (V ∪ puts (choice matched (draft.introduced draft₁) :: rest))
      (F ∪ fills (choice matched (draft.introduced draft₁) :: rest)) := by
  have hmatched := hmatched.holds
  have hfills :=
    Set.union_subset_union_right F (fills_choice matched (draft.introduced draft₁) rest)
  refine ⟨hmatched.clean, ⟨?_, ?_⟩, hmatched.marked, fun hplain => hfills (hmatched.plain hplain),
    fun hdetached => hfills (hmatched.detached hdetached)⟩
  · rw [hall.declares.keys, ← hall.declares.introduced_eq, puts_cons]
    exact forall_mem_append.2
      ⟨fun var hvar => .inl (h.scope.vars var hvar), fun var hvar => .inr (.inr (hvars var hvar))⟩
  · obtain ⟨new, hscope, -⟩ := hall.declares.optional rfl
    rw [hscope]
    exact (h.scope.mono Set.subset_union_left).paths

/-- The variables that an optional match introduces are bound again behind the choice. -/
theorem Tries.continues (h : Tries draft ps condition t draft₁) (hdraft : draft.Holds V F)
    (hps : ∀ p ∈ ps, ∀ e ∈ p.values, e.Supplied T) (hT : ∀ e ∈ condition, e.Within T) :
    Continues T V F t draft₁ := by
  have hcont {matched : Traversal} {draft' : Draft}
      (hall : All true draft ps condition matched draft') :
      Continues T V F matched draft' := hall.continues hdraft (by simp) hps hT
  have hvars {matched : Traversal} {draft' : Draft}
      (hall : All true draft ps condition matched draft') :
      ∀ var ∈ draft.introduced draft', (Label.named var).IsVisibleIn (V ∪ puts matched) := by
    refine fun var hvar => (hcont hall).holds.visible (Table.has_iff.2 ?_)
    rw [hall.declares.keys, ← hall.declares.introduced_eq]
    exact mem_append_right _ hvar
  cases h with
  | checks hall hnone =>
    exact ⟨formed_choice (hcont hall).formed (hvars hall),
      holds_choice hdraft hall (hcont hall) (by simp [hnone])⟩
  | binds hall =>
    have hchoice := formed_choice (hcont hall).formed (hvars hall)
    refine ⟨hchoice.rebinding (a := []) rfl _ fun var hvar => (hvars hall var hvar).2, ?_⟩
    exact (holds_choice hdraft hall (hcont hall) fun _ => mem_puts_rebinding).renumber (.succ _)

end Matching

end CypherGremlin
