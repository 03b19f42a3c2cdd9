import CypherGremlin.Proofs.Statement.Lowering
import CypherGremlin.Proofs.Statement.Lowers.OfQuery

/-!
# Clauses that only read

MATCH, UNWIND, WITH and RETURN only read.  The steps of patterns move through the graph and test and
label what they meet (`Matching.Matches.steps`).  All other steps are tame: what is kept when such
steps are put together holds of the steps of the clause, if it holds of those of its patterns
(`Clause.Lowers.closed`).  The first example is that none of the steps has an effect
(`Clause.Lowers.calm`).
-/

namespace CypherGremlin

variable {entries : List (Label × Traversal)} {ps : List Pattern} {draft draft' : Draft}
  {t : Traversal} {e : Expr} {condition : Option Expr} {Q P : Traversal → Prop}

open List Traversal

/-! ## What is kept -/

namespace Closed

variable (hQ : Closed Q P)
include hQ

lemma project (h : ∀ entry ∈ entries, Q entry.2) : Q [.project entries] :=
  hQ.step rfl (forall_mem_map.2 fun entry hentry => hQ.inner (h entry hentry))

lemma rebinding (row : Label) (vars : List String) : Q (rebinding row vars) :=
  hQ.append (a := [_]) (hQ.tame rfl) (hQ.flatMap fun _ _ => hQ.tame rfl)

lemma tests {e : Option Expr} (h : draft.Tests e t draft') : Q t := by
  cases h with
  | none => exact hQ.nil
  | some htest => exact hQ.step rfl (forall_mem_singleton.2 (hQ.test htest.lowers))

end Closed

/-! ## MATCH -/

/-- The step goes on from an element, or tests or labels it. -/
def Step.isPace : Step → Bool
  | .as _ => true
  | s => s.isProbe

lemma Step.isPace_of_isProbe {s : Step} (h : s.isProbe = true) : s.isPace = true := by
  cases s with
  | as => rfl
  | _ => exact h

lemma Step.walks_of_isPace {s : Step} (h : s.isPace = true) :
    s.isWalking = true ∧ s.children = [] := by
  cases s <;> first | exact ⟨rfl, rfl⟩ | cases h

lemma Scope.kind_of_expectKind {scope : Scope} {v context : String} {kind : VarKind}
    {binding : Binding} (h : scope.expectKind v kind context = .ok binding) :
    binding.kind = kind ∨ binding.kind = .value ∨ binding.kind = .map := by
  obtain ⟨found, -, h⟩ := bind_eq_ok.1 h
  split at h
  · rename_i hkind
    obtain rfl := Except.ok.inj h
    simpa [or_assoc] using hkind
  · cases h

namespace Matching

variable {isOptional : Bool} {matched : Matched} {p : Pattern}

lemma Element.isPace {place : Place} {var : Option String} {tests : Traversal} {l : Label}
    {new : List Label} (h : Element isOptional draft place var tests l t new draft')
    (hplace : place ≠ .start) (htests : ∀ s ∈ tests, s.isProbe = true) :
    ∀ s ∈ t, s.isPace = true := by
  have htests : ∀ s ∈ tests, s.isPace = true := fun s hs => Step.isPace_of_isProbe (htests s hs)
  have hlast {last : Step} (hlast : last.isPace = true) : ∀ s ∈ tests ++ [last], s.isPace = true :=
    forall_mem_append.2 ⟨htests, forall_mem_singleton.2 hlast⟩
  cases h <;> cases place
  case known.start | new.start => exact absurd rfl hplace
  case known.node => exact forall_mem_cons.2 ⟨rfl, htests⟩
  all_goals exact hlast (by rfl)

lemma CrossesAll.isPace {path : Option String} {position : Nat} {hops : List Hop}
    {elements : List PathElement}
    (h : CrossesAll isOptional path position draft hops elements matched draft') :
    ∀ s ∈ matched.steps, s.isPace = true := by
  induction h with
  | nil => exact forall_mem_nil _
  | @cons position _ _ _ hop _ _ _ _ _ hfirst _ ih =>
    obtain ⟨-, hrelTests, hrel, hnodeTests, hnode⟩ := hfirst
    have hrel :=
      hrel.isPace (by simp) (forall_mem_cons.2 ⟨Direction.isProbe_edgeStep _ _, hrelTests.isProbe⟩)
    have hmarking : ∀ s ∈ marking path position, s.isPace = true := by
      cases path <;> simp [marking, Step.isPace]
    simp only [Matched.append, forall_mem_append, forall_mem_singleton]
    exact ⟨⟨⟨⟨hrel, hmarking⟩, Step.isPace_of_isProbe (Direction.isProbe_nodeStep _)⟩,
      hnode.isPace (by simp) hnodeTests.isProbe⟩, ih⟩

/-- The steps of a pattern go on from all nodes, or from what a variable in scope holds. -/
lemma Matches.steps (h : Matches isOptional draft p matched draft') :
    ∃ rest, (∀ s ∈ rest, s.isPace = true) ∧
    (matched.steps = .V :: rest ∨ ∃ v binding, p.start.var = some v ∧
      draft.scope.binding? v = some binding ∧
      binding.kind ≠ .path ∧ matched.steps = binding.select v ++ rest) := by
  have hall {start : Traversal} {draft₁ : Draft}
      (hstart : Starts isOptional draft p.start start draft₁)
      {more : Traversal} (hmore : ∀ s ∈ more, s.isPace = true) : ∃ rest,
      (∀ s ∈ rest, s.isPace = true) ∧
      (start ++ more = .V :: rest ∨ ∃ v binding, p.start.var = some v ∧
      draft.scope.binding? v = some binding ∧
        binding.kind ≠ .path ∧ start ++ more = binding.select v ++ rest) := by
    obtain @⟨tests, _, l, _, _, htests, hnode⟩ := hstart
    have htests := fun s hs => Step.isPace_of_isProbe (htests.isProbe s hs)
    cases hnode with
    | known hvar hbound hexpected =>
      refine ⟨_, forall_mem_append.2 ⟨htests, hmore⟩,
        .inr ⟨_, _, hvar, hbound, ?_, append_assoc _ _ _⟩⟩
      rcases Scope.kind_of_expectKind hexpected with h | h | h <;> simp [h, Place.kind]
    | new =>
      refine ⟨tests ++ .as l :: more, forall_mem_append.2 ⟨htests, forall_mem_cons.2 ⟨rfl, hmore⟩⟩,
        .inl ?_⟩
      simp [Place.meet]
  cases h with
  | unnamed _ hstart hhops => exact hall hstart hhops.isPace
  | @named path _ _ _ _ _ _ _ _ hstart hhops =>
    have hmark : (Step.as (.token (.pathStart path))).isPace = true := rfl
    simpa [Matched.append] using hall hstart (forall_mem_cons.2 ⟨hmark, hhops.isPace⟩)

lemma MatchesAll.walks (h : MatchesAll isOptional draft ps matched draft') :
    ∀ s ∈ matched.steps, s.isWalking = true ∧ s.children = [] := by
  induction h with
  | nil => exact forall_mem_nil _
  | cons hp _ ih =>
    refine forall_mem_append.2 ⟨?_, ih⟩
    obtain ⟨rest, hrest, heq | ⟨v, binding, -, -, -, heq⟩⟩ := hp.steps
    · exact heq ▸ forall_mem_cons.2 ⟨⟨rfl, rfl⟩, fun s hs => Step.walks_of_isPace (hrest s hs)⟩
    · refine heq ▸ forall_mem_append.2 ⟨?_, fun s hs => Step.walks_of_isPace (hrest s hs)⟩
      rw [Binding.select]
      split <;> simp [Step.isWalking, Step.children, Step.notNull]

lemma MatchesAll.calm (h : MatchesAll isOptional draft ps matched draft') : matched.steps.Calm :=
  Walks.calm (allSteps_of_forall h.walks)

lemma All.closed (hQ : Closed Q P) (h : All isOptional draft ps condition t draft')
    (hps : ∀ matched draft₁, MatchesAll isOptional draft ps matched draft₁ → Q matched.steps) :
    Q t := by
  obtain @⟨m, _, _, _, hall, htests⟩ := h
  refine hQ.append (hQ.append (hps _ _ hall) ?_) (hQ.tests htests)
  induction m.relationships with
  | nil => exact hQ.nil
  | cons l rest ih =>
    rw [differences, map_eq_flatMap]
    exact hQ.append (hQ.flatMap fun r _ => hQ.tame rfl) ih

lemma All.calm (h : All isOptional draft ps condition t draft') : t.Calm :=
  h.closed closed_calm fun _ _ hps => hps.calm

lemma closed_choice (hQ : Closed Q P) {matched : Traversal} (hmatched : Q matched)
    (vars : List String) : Q [choice matched vars] := by
  refine hQ.step rfl (forall_mem_cons.2 ⟨hQ.inner (hQ.append hmatched (hQ.tame rfl)),
    forall_mem_singleton.2 ?_⟩)
  refine hQ.inner (hQ.append (hQ.append (hQ.tame rfl) ?_) (hQ.tame rfl))
  exact hQ.flatMap fun v _ => hQ.tame rfl

lemma Tries.closed (hQ : Closed Q P) (h : Tries draft ps condition t draft')
    (hps : ∀ matched draft₁, MatchesAll true draft ps matched draft₁ → Q matched.steps) : Q t := by
  cases h with
  | checks hall => exact closed_choice hQ (hall.closed hQ hps) _
  | binds hall => exact hQ.append (closed_choice hQ (hall.closed hQ hps) _) (hQ.rebinding _ _)

end Matching

/-! ## Projections -/

namespace Projecting

variable {mode : Mode} {p : Projection} {columns : List (Item Expr)} (hQ : Closed Q P)
include hQ

lemma closed_groupRows (h : ∀ entry ∈ entries, Q entry.2) : Q (groupRows entries) := by
  rw [groupRows]
  split
  · exact hQ.tame rfl
  · exact hQ.append (hQ.project h) (hQ.tame rfl)

lemma closed_summary (role : Role Label) : Q (summary role) := by
  cases role with
  | key => exact hQ.nil
  | countAll => exact hQ.tame rfl
  | aggregate f distinct => cases f <;> cases distinct <;> exact hQ.tame rfl

lemma closed_groupColumn (scope : Scope) (mode : Mode) (input : Item Label) :
    Q (groupColumn scope mode input) := by
  rw [groupColumn]
  split
  · exact hQ.append (a := [_]) (hQ.tame rfl) (closed_summary hQ _)
  · refine hQ.append (hQ.tame rfl) ?_
    cases mode <;> cases input.expr.columnKind scope <;> exact hQ.tame rfl

lemma Makes.closed (h : Makes mode draft columns t draft') : Q t := by
  have hval {d d' : Draft} {mode : Mode} {e : Expr} {t : Traversal}
      (h : d.Computes (.value mode) e t d') : Q t := hQ.value h.lowers
  cases h with
  | perRow _ hvals => exact hQ.project (hvals.forall_entries hval)
  | overall _ hinputs =>
    refine hQ.append (closed_groupRows hQ (hinputs.forall_entries hval)) (hQ.project ?_)
    exact forall_mem_map.2 fun input _ => closed_summary hQ _
  | perGroup _ hinputs _ _ hvals =>
    have hgroup : Q [.group _ _] :=
      hQ.step rfl (forall_mem_cons.2 ⟨hQ.inner (hQ.project (hvals.forall_entries hval)),
      forall_mem_singleton.2 (hQ.inner (closed_groupRows hQ (hinputs.forall_entries hval)))⟩)
    refine hQ.append (a := [_]) hgroup (hQ.append (a := [_]) (hQ.tame rfl) (hQ.project ?_))
    exact forall_mem_map.2 fun input _ => closed_groupColumn hQ _ _ _

lemma Orders.closed {sorts : List SortItem} {keys : List (Traversal × SortOrder)}
    (h : Orders columns draft sorts keys draft') : ∀ key ∈ keys, Q key.1 := by
  induction h with
  | nil => exact forall_mem_nil _
  | @cons _ _ _ _ _ key _ hkey _ ih =>
    have hclosed : Q key := by
      cases hkey with
      | column => exact hQ.tame rfl
      | value _ _ hval => exact hQ.value hval.lowers
    exact forall_mem_cons.2 ⟨hQ.append hclosed (hQ.tame rfl), forall_mem_cons.2 ⟨hclosed, ih⟩⟩

lemma Modifies.closed (h : Modifies draft p columns t draft') : Q t := by
  obtain ⟨horder, hpage⟩ := h
  obtain ⟨skip, limit, -, rfl⟩ := (delivers_paging p).result _ hpage
  refine hQ.append (hQ.append ?_ ?_) ?_
  · split <;> exact hQ.tame rfl
  · split
    · exact hQ.nil
    · exact hQ.step rfl (forall_mem_map.2 fun key hkey => hQ.inner (horder.closed hQ key hkey))
  · cases skip <;> cases limit <;> exact hQ.tame rfl

lemma Unwinds.closed {name : String} (h : Unwinds draft e name t draft') : Q t := by
  obtain ⟨-, hval⟩ := h
  have hitems :=
    hQ.inner (hQ.append (hQ.value hval.lowers) (hQ.tame (t := [.notNull, .unfold]) rfl))
  exact hQ.append (a := [_]) (hQ.step rfl (forall_mem_singleton.2 hitems)) (hQ.tame rfl)

end Projecting

/-- The clause can change the graph. -/
def Clause.writes : Clause → Bool
  | .match _ _ _ | .unwind _ _ | .with _ | .return _ => false
  | .create _ | .merge _ | .set _ | .remove _ | .delete _ _ => true

theorem Clause.Lowers.closed {clause : Clause} {columns : List Column} (hQ : Closed Q P)
    (h : clause.Lowers draft columns t draft') (hreads : clause.writes = false)
    (hps : ∀ isOptional ps condition matched draft₁, clause = .match isOptional ps condition →
      Matching.MatchesAll isOptional draft ps matched draft₁ → Q matched.steps) : Q t := by
  cases h with
  | «match» h | optionalMatch h => exact h.closed hQ fun _ _ => hps _ _ _ _ _ rfl
  | unwind h => exact h.closed hQ
  | «with» h =>
    obtain ⟨-, -, hrows, hmods, htests⟩ := h
    exact hQ.append (hQ.append (hQ.append (hrows.closed hQ) (hmods.closed hQ)) (hQ.rebinding _ _))
      (hQ.tests htests)
  | «return» h =>
    obtain ⟨-, -, hrows, hmods⟩ := h
    exact hQ.append (hrows.closed hQ) (hmods.closed hQ)
  | create | merge | set | remove | delete => cases hreads

theorem Clause.Lowers.calm {clause : Clause} {columns : List Column}
    (h : clause.Lowers draft columns t draft') (hreads : clause.writes = false) : t.Calm :=
  h.closed closed_calm hreads fun _ _ _ _ _ _ hps => hps.calm

end CypherGremlin
