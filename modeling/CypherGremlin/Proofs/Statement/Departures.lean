import CypherGremlin.Proofs.Statement.Adding.OfQuery
import CypherGremlin.Proofs.Statement.Reading

/-!
# Following relationships from a variable

Where a pattern begins at a variable that may be null, a test behind the selection stops the row.  A
traversal departs from a variable if it follows relationships directly from the selection, without
such a test.

* `Clause.DepartsFrom draft v clause` says which clauses do so: a MATCH with a pattern that begins
  at the variable, if it is never null there, and a MERGE of a relationship that comes from it,
  whether it may be null or not.
* `Query.departsAt` says that all departures in the program of a query come from such a clause, or
  stand in the test of a pattern that begins at the variable.
* `Query.departsAt_absent` shows such a test of a variable that may be null.
-/

namespace CypherGremlin

variable {A B : String → Prop} {a b t : Traversal} {s : Step} {v : String} {draft draft' : Draft}
  {ps : List Pattern}

open List Traversal

namespace Traversal

/-- Relationships are followed directly from what the variable holds. -/
def DepartsFrom (v : String) (t : Traversal) : Prop :=
  ∃ edge : Step, edge.isEdge = true ∧ [.select [.named v], edge] <:+: t

/-- The traversal is the test of a pattern that begins at the variable. -/
def IsTestFrom (v : String) (t : Traversal) : Prop :=
  ∃ scope p, Pattern.testTraversal scope p = .ok t ∧ p.start.var = some v

/-- At any depth, the traversal departs only from the given variables or in the test of a pattern.
-/
def DepartsInside (A : String → Prop) (t : Traversal) : Prop :=
  ∀ u ∈ nested t, ∀ v, DepartsFrom v u → A v ∨ IsTestFrom v u

/-- The traversal departs only from the given variables, wherever it stands. -/
structure Departs (A : String → Prop) (t : Traversal) : Prop where
  start : ∀ s ∈ t.head?, s.isEdge = false
  departs : ∀ v, DepartsFrom v t → A v
  inside : ∀ s ∈ t, ∀ c ∈ s.children, DepartsInside A c

namespace Departs

lemma mono (h : Departs A t) (hAB : ∀ v, A v → B v) : Departs B t :=
  ⟨h.start, fun v hv => hAB v (h.departs v hv),
    fun s hs c hc u hu v hv => (h.inside s hs c hc u hu v hv).imp_left (hAB v)⟩

lemma inner (h : Departs A t) : DepartsInside A t :=
  forall_mem_nested_iff.2 ⟨fun v hv => .inl (h.departs v hv), h.inside⟩

lemma of_none (hstart : ∀ s ∈ t.head?, s.isEdge = false)
    (h : ∀ u ∈ nested t, ∀ v, ¬ DepartsFrom v u) : Departs A t := by
  obtain ⟨hself, hinside⟩ := forall_mem_nested_iff.1 h
  exact ⟨hstart, fun v hv => absurd hv (hself v),
    fun s hs c hc u hu v hv => absurd hv (hinside s hs c hc u hu v)⟩

lemma append (ha : Departs A a) (hb : Departs A b) : Departs A (a ++ b) := by
  refine ⟨fun s hs => ?_, fun v hv => ?_, forall_mem_append.2 ⟨ha.inside, hb.inside⟩⟩
  · rw [head?_append, Option.mem_def, Option.or_eq_some_iff] at hs
    exact hs.elim (ha.start s) fun hs => hb.start s hs.2
  · obtain ⟨edge, hedge, hstands⟩ := hv
    obtain h | h | ⟨front, back, heq, hfront, hback⟩ := infix_append_iff.1 hstands
    · exact ha.departs v ⟨edge, hedge, h⟩
    · exact hb.departs v ⟨edge, hedge, h⟩
    · rcases front with _ | ⟨x, _ | ⟨y, front⟩⟩
      · exact hb.departs v ⟨edge, hedge, heq ▸ hback.isInfix⟩
      · -- The selection is the last step of the first part.
        obtain ⟨-, rfl⟩ : .select [.named v] = x ∧ [edge] = back := by simpa using heq
        obtain ⟨rest, rfl⟩ := hback
        simp [hb.start edge rfl] at hedge
      · obtain ⟨rfl, rfl, rfl, -⟩ : .select [.named v] = x ∧ edge = y ∧ [] = front ∧ [] = back := by
          simpa using heq
        exact ha.departs v ⟨edge, hedge, hfront.isInfix⟩

lemma step (hs : s.isEdge = false) (hinside : ∀ c ∈ s.children, DepartsInside A c) :
    Departs A [s] := by
  refine ⟨by simpa using hs, ?_, forall_mem_singleton.2 hinside⟩
  rintro v ⟨edge, -, hstands⟩
  simpa using hstands.length_le

/-- No step at any depth follows relationships. -/
lemma still (h : (walk t).all (!·.isEdge) = true) : Departs A t := by
  have hstill := forall_mem_walk_iff_nested.1 (all_eq_true.1 h)
  refine of_none (fun s hs => ?_) ?_
  · simpa using hstill t (mem_nested_self t) s (mem_of_mem_head? hs)
  · rintro u hu v ⟨edge, hedge, hstands⟩
    simpa [hedge] using hstill u hu edge (hstands.subset (by simp))

/-- What goes on from a first step. -/
lemma paces {rest : Traversal} (hs : s.isEdge = false) (hchild : s.children = [])
    (hrest : ∀ s ∈ rest, s.isPace = true) (hA : ∀ v, s = .select [.named v] → A v) :
    Departs A (s :: rest) := by
  refine ⟨by simpa using hs, ?_, ?_⟩
  · rintro v ⟨edge, -, hstands⟩
    obtain h | h := infix_cons_iff.1 hstands
    · exact hA v (cons_prefix_cons.1 h).1.symm
    · simpa [Step.isPace, Step.isProbe] using hrest _ (h.subset mem_cons_self)
  · refine forall_mem_cons.2 ⟨by simp [hchild], fun s hs => ?_⟩
    simp [(Step.walks_of_isPace (hrest s hs)).2]

end Departs

end Traversal

/-! ## Expressions -/

lemma Hop.TestedBy.isPace {scope : Scope} {hop : Hop} (h : Hop.TestedBy scope hop t) :
    ∀ s ∈ t, s.isPace = true := by
  obtain ⟨-, hrel, hjoin, hnode⟩ := h
  refine fun s hs => Step.isPace_of_isProbe ?_
  revert s
  simp only [forall_mem_append, forall_mem_singleton]
  refine ⟨⟨⟨⟨Direction.isProbe_edgeStep _ _, hrel.isProbe⟩, Direction.isProbe_nodeStep _⟩, ?_⟩,
    hnode.isProbe⟩
  cases hjoin with
  | none => exact forall_mem_nil _
  | some => exact forall_mem_singleton.2 rfl

lemma closed_departs (A : String → Prop) : Closed (Departs A) (DepartsInside A) where
  nil := .still rfl
  append := .append
  step htame := .step (by simpa [Step.isTame] using (Bool.and_eq_true_iff.1 htame).2)
  inner := Departs.inner
  pattern {scope p t} hrun hreading := by
    refine forall_mem_nested_iff.2 ⟨fun u hu => .inr ⟨scope, p, hrun, ?_⟩, fun s hs => ?_⟩
    · obtain @⟨v, start, hops, hvar, -, hstart, hhops⟩ :=
        (Pattern.delivers_testTraversal scope p).result _ hrun
      have hrest : ∀ s ∈ start ++ hops.flatten, s.isPace = true := by
        refine forall_mem_append.2 ⟨fun s hs => Step.isPace_of_isProbe (hstart.isProbe s hs),
          fun s hs => ?_⟩
        obtain ⟨t, ht, hs⟩ := mem_flatten.1 hs
        obtain ⟨hop, -, htest⟩ := exists_mem_of_forall₂ hhops t ht
        exact htest.isPace s hs
      have hdeparts : Departs (· = v) (.select [.named v] :: (start ++ hops.flatten)) :=
        .paces rfl rfl hrest (by simp)
      rw [hvar, hdeparts.departs u hu]
    · simp [(Step.plainly_of_isReading (hreading s hs)).children]

/-- A pattern never meets null under the variable: in scope it is no path and cannot be null, or the
clause brings it into scope and is not optional. -/
structure Scope.NeverNull (isOptional : Bool) (scope : Scope) (v : String) : Prop where
  bound : ∀ binding, scope.binding? v = some binding → binding.kind ≠ .path ∧
    binding.nullable = false
  new : scope.binds v = false → isOptional = false

section

variable {isOptional : Bool}

/-- Patterns do not take back that a variable may be null. -/
lemma Draft.Declares.neverNull {names : List String} (h : draft.Declares isOptional names t draft')
    (hv : draft'.scope.NeverNull isOptional v) : draft.scope.NeverNull isOptional v := by
  have hcases {binding : Binding} (hbind : draft'.scope.binding? v = some binding) :
      draft.scope.binding? v = some binding ∨ v ∉ Table.keys draft.scope.vars ∧
      isOptional = false := by
    obtain ⟨hkind, hnull⟩ := hv.bound binding hbind
    exact ((h.bindings v binding hbind).resolve_left hkind).imp_right (.imp_right (hnull ▸ ·.symm))
  refine ⟨fun binding hbind => ?_, fun hfree => ?_⟩
  · have hold := Table.mem_keys_of_get? hbind
    obtain ⟨binding', hbind'⟩ :=
      Option.isSome_iff_exists.1 (Table.has_iff.2 (h.keys ▸ mem_append_left _ hold))
    obtain heq | hnew := hcases hbind'
    · exact hv.bound binding (hbind'.trans (heq.symm.trans hbind))
    · exact absurd hold hnew.1
  · cases hbind : draft'.scope.binding? v with
    | none => exact hv.new (by rw [Scope.binds, Table.has, ← Scope.binding?, hbind]; rfl)
    | some binding =>
      obtain heq | hnew := hcases hbind
      · simp [Scope.binds_of_binding? heq] at hfree
      · exact hnew.2

lemma Matching.MatchesAll.departs {matched : Matched}
    (h : MatchesAll isOptional draft ps matched draft') :
    Departs (fun v => (∃ p ∈ ps, p.start.var = some v) ∧ draft.scope.NeverNull isOptional v)
      matched.steps := by
  induction h with
  | nil => exact .still rfl
  | @cons draft draft₁ _ p rest _ _ hp _ ih =>
    have hdecl := (MatchesAll.cons hp (.nil _)).declares
    refine .append ?_ (ih.mono fun v hv => ⟨?_, hdecl.neverNull hv.2⟩)
    · obtain ⟨rest, hrest, heq | ⟨v, binding, hvar, hbound, hkind, heq⟩⟩ := hp.steps
      · exact heq ▸ .paces rfl rfl hrest (by simp)
      · rw [heq, Binding.select]
        split
        · exact .append (a := [_]) (.step rfl (forall_mem_nil _))
            (.paces rfl rfl hrest (by simp [Step.notNull]))
        · rename_i hnull
          refine .paces rfl rfl hrest fun u hu => ?_
          obtain rfl : v = u := by simpa using hu
          refine ⟨⟨p, mem_cons_self, hvar⟩, fun binding' hbound' => ?_, fun hfree => ?_⟩
          · obtain rfl : binding = binding' := by simpa [hbound] using hbound'
            exact ⟨hkind, by simpa using hnull⟩
          · simp [Scope.binds_of_binding? hbound] at hfree
    · obtain ⟨p', hp', hvar⟩ := hv.1
      exact ⟨p', mem_cons_of_mem _ hp', hvar⟩

end

/-! ## Clauses that write -/

lemma Creating.Stores.departs {entries : List (String × Expr)} (h : Stores draft entries t draft') :
    Departs A t := by
  induction h with
  | nil => exact .still rfl
  | null _ _ ih => exact ih
  | constant _ _ _ _ ih => exact .append (a := [_]) (.still rfl) ih
  | computed _ _ hval _ ih =>
    have hval := (closed_departs A).value hval.lowers
    exact .append (a := [_]) (.step rfl (forall_mem_singleton.2 hval.inner)) ih

lemma Creating.CreatesAll.departs (h : CreatesAll draft ps t draft') : Departs A t := by
  have hnode {draft draft' : Draft} {node : NodePattern} {l : Label} {t : Traversal}
      (h : Node draft node l t draft') : Departs A t := by
    cases h with
    | known => exact .still rfl
    | new _ _ _ hstores =>
      exact .append (.append (a := [_]) (.still rfl) hstores.departs) (.still rfl)
  have hhops {l : Label} {draft draft' : Draft} {hops : List Hop} {t : Traversal}
      (h : Hops l draft hops t draft') : Departs A t := by
    induction h with
    | nil => exact .still rfl
    | cons hend hrel _ ih =>
      obtain ⟨-, -, -, hstores, -⟩ := hrel
      exact .append (.append (hnode hend) (.append (.append (a := [_]) (.still rfl) hstores.departs)
        (.still rfl))) ih
  induction h with
  | nil => exact .still rfl
  | cons hp _ ih =>
    obtain ⟨-, hstart, hrest⟩ := hp
    exact .append (.append (hnode hstart) (hhops hrest)) ih

lemma Updating.Targets.departs {scope : Scope} (h : Targets scope v t) : Departs A t := by
  obtain ⟨-⟩ := h
  rw [Binding.select]
  split <;> exact .still rfl

lemma Updating.Sets.departs {items : List Assignment} (h : Sets draft items t draft') :
    Departs A t := by
  have hassigns {draft draft' : Draft} {key : String} {e : Expr} {t : Traversal}
      (h : Assigns draft key e t draft') : Departs A t := by
    cases h with
    | null | constant => exact .still rfl
    | computed _ hval =>
      exact .step rfl (forall_mem_singleton.2 ((closed_departs A).value hval.lowers).inner)
  induction h with
  | nil => exact .still rfl
  | cons htarget _ hwritten _ ih =>
    exact .append (a := [_])
      (.step rfl (forall_mem_singleton.2 (htarget.departs.append (hassigns hwritten)).inner)) ih

/-- The clause follows relationships directly from what the variable holds.  A MATCH does so only if
this is never null; a MERGE does so whatever it is. -/
def Clause.DepartsFrom (draft : Draft) (v : String) : Clause → Prop
  | .match isOptional ps _ => (∃ p ∈ ps, p.start.var = some v) ∧ draft.scope.NeverNull isOptional v
  | .merge p => ∃ hop ∈ p.hops, hop.rel.direction = .out ∧ p.start.var = some v ∨
      hop.rel.direction = .in ∧ hop.node.var = some v
  | _ => False

lemma Merging.Merges.departs {p : Pattern} (h : Merges draft p t draft') :
    Departs ((Clause.merge p).DepartsFrom draft) t := by
  have hsets {s : Step} (hs : s.isEdge = false) (hchild : s.children = [])
      (values : List (String × Value)) :
      DepartsInside ((Clause.merge p).DepartsFrom draft)
      (s :: values.map fun entry => .property entry.1 entry.2) :=
    (Departs.append (.step hs (by simp [hchild]))
      ((closed_departs _).of_forall (forall_mem_map.2 fun _ _ => .still rfl))).inner
  have hchoice {find create : Traversal} (l : Label)
      (hfind : Departs ((Clause.merge p).DepartsFrom draft) find)
      (hcreate : DepartsInside ((Clause.merge p).DepartsFrom draft) create) :
      Departs ((Clause.merge p).DepartsFrom draft) [.coalesce [find, create], .as l] :=
    .append (a := [_]) (.step rfl (forall_mem_cons.2 ⟨hfind.inner, forall_mem_singleton.2 hcreate⟩))
      (.still rfl)
  cases h with
  | node _ _ _ htests =>
    have htests := fun s hs => Step.isPace_of_isProbe (htests.isProbe s hs)
    exact hchoice _ (.paces rfl rfl htests (by simp)) (hsets rfl rfl _)
  | @relationship hop _ _ _ source _ _ values _ hhops hstart hend _ _ hends =>
    have hsource : ∀ v, Step.select [source] = .select [.named v] →
        (Clause.merge p).DepartsFrom draft v := by
      rintro v hv
      obtain rfl : source = .named v := by simpa using hv
      refine ⟨hop, hhops ▸ mem_singleton_self hop, ?_⟩
      obtain ⟨hvar, -⟩ := hstart
      obtain ⟨hvar', -⟩ := hend
      cases hdir : hop.rel.direction <;> simp_all [Creating.ends?]
    refine hchoice _ (.append (.paces rfl rfl (forall_mem_cons.2 ⟨rfl, ?_⟩) hsource) (.still rfl))
      (hsets rfl rfl _)
    exact forall_mem_map.2 fun _ _ => rfl

theorem Clause.Lowers.departs {clause : Clause} {columns : List Column}
    (h : clause.Lowers draft columns t draft') : Departs (clause.DepartsFrom draft) t := by
  cases hwrites : clause.writes with
  | false =>
    refine h.closed (closed_departs _) hwrites fun isOptional ps condition matched draft₁ heq hps =>
      ?_
    exact heq ▸ hps.departs
  | true =>
    cases h with
    | create h | merge h | set h => exact h.departs
    | remove h =>
      refine (closed_departs _).of_forall fun s hs => ?_
      obtain ⟨item, -, -, target, htarget, rfl⟩ := exists_mem_of_forall₂ h s hs
      exact .step rfl (forall_mem_singleton.2 (htarget.departs.append (.still rfl)).inner)
    | delete => exact (closed_departs _).of_forall (forall_mem_map.2 fun _ _ => .still rfl)
    | «match» | optionalMatch | unwind | «with» | «return» => cases hwrites

/-! ## Queries -/

/-- What the steps of a program do at each position: the variables that they depart from, directly
or inside. -/
structure Traversal.DepartsAt (A : Nat → String → Prop) (t : Traversal) : Prop where
  selects : ∀ i v, t[i]? = some (.select [.named v]) → ∀ edge ∈ t[i + 1]?, edge.isEdge = true →
    A i v
  inside : ∀ i s, t[i]? = some s → ∀ c ∈ s.children, DepartsInside (A i) c

namespace Traversal.DepartsAt

variable {A B : Nat → String → Prop} {C : String → Prop}

lemma mono (h : DepartsAt A t) (hAB : ∀ i v, A i v → B i v) : DepartsAt B t :=
  ⟨fun i v hi edge hnext hedge => hAB i v (h.selects i v hi edge hnext hedge),
    fun i s hi c hc u hu v hv => (h.inside i s hi c hc u hu v hv).imp_left (hAB i v)⟩

lemma append (ha : DepartsAt A a) (hb : Departs C b)
    (hC : ∀ i v, a.length ≤ i → i < (a ++ b).length → C v → A i v) : DepartsAt A (a ++ b) where
  selects i v hi edge hnext hedge := by
    have hlt := (List.getElem?_eq_some_iff.1 hi).1
    rcases Nat.lt_or_ge i a.length with hfirst | hsecond
    · rw [getElem?_append_left hfirst] at hi
      rcases Nat.lt_or_ge (i + 1) a.length with hfirst' | hsecond'
      · rw [getElem?_append_left hfirst'] at hnext
        exact ha.selects i v hi edge hnext hedge
      · -- The second part would begin with relationships.
        rw [getElem?_append_right hsecond', Nat.sub_eq_zero_of_le hfirst, ← head?_eq_getElem?]
          at hnext
        simp [hb.start edge hnext] at hedge
    · refine hC i v hsecond hlt (hb.departs v ?_)
      rw [getElem?_append_right hsecond] at hi
      rw [getElem?_append_right (by omega), Nat.sub_add_comm hsecond] at hnext
      have hdrop : b.drop (i - a.length) = .select [.named v] :: edge ::
          b.drop (i - a.length + 2) := by
        obtain ⟨hlt, hget⟩ := List.getElem?_eq_some_iff.1 hi
        obtain ⟨hlt', hget'⟩ := List.getElem?_eq_some_iff.1 hnext
        rw [drop_eq_getElem_cons hlt, hget, drop_eq_getElem_cons hlt', hget']
      refine ⟨edge, hedge, b.take (i - a.length), b.drop (i - a.length + 2), ?_⟩
      rw [append_assoc, cons_append, singleton_append, ← hdrop, take_append_drop]
  inside i s hi c hc := by
    have hlt := (List.getElem?_eq_some_iff.1 hi).1
    rcases Nat.lt_or_ge i a.length with hfirst | hsecond
    · rw [getElem?_append_left hfirst] at hi
      exact ha.inside i s hi c hc
    · rw [getElem?_append_right hsecond] at hi
      intro u hu v hv
      exact (hb.inside s (mem_of_getElem? hi) c hc u hu v hv).imp_left (hC i v hsecond hlt)

end Traversal.DepartsAt

/-- The step at a position of the program comes from one of the clauses, which departs from the
variable. -/
def DepartsAmong (clauses : List Clause) (i : Nat) (v : String) : Prop :=
  ∃ before clause after root draft root' draft', clauses = before ++ clause :: after ∧
    Drafted before root draft ∧
    Drafted (before ++ [clause]) root' draft' ∧ root.length ≤ i ∧ i < root'.length ∧
    clause.DepartsFrom draft v

lemma Drafted.departsAmong {clauses : List Clause} {root : Traversal}
    (h : Drafted clauses root draft) : DepartsAt (DepartsAmong clauses) root := by
  induction h with
  | nil => exact ⟨by simp, by simp⟩
  | @clause clauses root steps draft draft' clause columns hbefore hopen hlow ih =>
    have hclause : ∃ more, (if root.isEmpty && clause.needsRow then oneRow else root) ++ steps =
        root ++ more ∧ Departs (clause.DepartsFrom draft) more := by
      have hsteps := ((Clause.deliversFrom_lower clause).result _ hlow).departs
      split
      · rename_i hempty
        rw [Bool.and_eq_true, List.isEmpty_iff] at hempty
        exact ⟨oneRow ++ steps, by rw [hempty.1, nil_append], .append (.still rfl) hsteps⟩
      · exact ⟨steps, rfl, hsteps⟩
    obtain ⟨more, heq, hmore⟩ := hclause
    have hafter : Drafted (clauses ++ [clause]) (root ++ more) draft' :=
      heq ▸ .clause hbefore hopen hlow
    rw [heq]
    refine .append (ih.mono ?_) hmore fun i v hi hlt hv =>
      ⟨clauses, clause, [], root, draft, _, draft', rfl, hbefore, hafter, hi, hlt, hv⟩
    rintro i v ⟨before, earlier, after, root, draft, root', draft', rfl, hplace⟩
    exact ⟨before, earlier, after ++ [clause], root, draft, root', draft', by simp, hplace⟩

def Step.isRecall : Step → Bool
  | .select [.named _] => true
  | _ => false

/-- The steps at the end select no variables. -/
lemma departs_closing (buckets : Buckets) (returns : Bool) :
    Departs A (closing buckets returns) := by
  have hclosing : ((closing buckets returns).head?.all fun s => !s.isEdge) = true ∧
      ((walk (closing buckets returns)).all fun s => !s.isRecall) = true := by
    obtain ⟨plain, detached⟩ := buckets
    cases plain <;> cases detached <;> cases returns <;> exact ⟨rfl, rfl⟩
  refine .of_none (fun s hs => ?_) ?_
  · rw [Option.mem_def] at hs
    simpa [hs] using hclosing.1
  · rintro u hu v ⟨edge, -, hstands⟩
    have hrecall := forall_mem_walk_iff_nested.1 (all_eq_true.1 hclosing.2) u hu _
      (hstands.subset mem_cons_self)
    simp [Step.isRecall] at hrecall

/-- Where the program of a query follows relationships directly from what a variable holds, the step
comes from a MATCH that begins a pattern at the variable and never meets null there, or from a
MERGE, or a pattern is tested that begins at the variable. -/
theorem Query.departsAt {q : Query} {s : Statement} (h : q.statement = .ok s) :
    s.traversal.DepartsAt (DepartsAmong q.clauses) := by
  obtain ⟨root, draft, hdrafted, htrav⟩ := Query.exists_drafted h
  rw [htrav]
  exact hdrafted.departsAmong.append (departs_closing (A := fun _ => False) _ _) (by simp)

/-- `MATCH (a) MATCH (a)-->(b) RETURN b`. -/
def Query.onward : Query := ⟨[
  .match false [{ start := { var := some "a" } }] none,
  .match false [{ start := { var := some "a" }, hops := [⟨{}, { var := some "b" }⟩] }] none,
  .return { items := [⟨.var "b", none⟩] }]⟩

theorem Query.departsAt_onward :
    ∃ s, Query.onward.statement = .ok s ∧ DepartsAmong Query.onward.clauses 2 "a" := by
  obtain ⟨s, hs, hsel, edge, hnext, hedge⟩ : ∃ s, Query.onward.statement = .ok s ∧
      s.traversal[2]? = some (.select [.named "a"]) ∧
      ∃ edge ∈ s.traversal[3]?, edge.isEdge = true :=
    ⟨_, by with_unfolding_all rfl, rfl, _, rfl, rfl⟩
  exact ⟨s, hs, (Query.departsAt hs).selects 2 "a" hsel edge hnext hedge⟩

/-- `OPTIONAL MATCH (a) MATCH (b) WHERE (a)-->() RETURN b`. -/
def Query.absent : Query := ⟨[
  .match true [{ start := { var := some "a" } }] none,
  .match false [{ start := { var := some "b" } }]
  (some (.pattern { start := { var := some "a" }, hops := [⟨{}, {}⟩] })),
  .return { items := [⟨.var "b", none⟩] }]⟩

/-- The variable may be null, and the test of the pattern follows its relationships without asking.
-/
theorem Query.departsAt_absent : ∃ s root draft u, Query.absent.statement = .ok s ∧
    Drafted (Query.absent.clauses.take 2) root draft ∧ draft.scope.binding? "a" =
      some ⟨.node, true⟩ ∧
    s.traversal[8]? = some (.filter u) ∧ DepartsFrom "a" u := by
  obtain ⟨statement, draft, hrun, ha⟩ : ∃ statement draft,
      lowerClauses [] (Query.absent.clauses.take 2) {} = .ok (statement, draft) ∧
        draft.scope.binding? "a" = some ⟨.node, true⟩ := ⟨_, _, by with_unfolding_all rfl, rfl⟩
  refine ⟨_, _, draft, [.select [.named "a"], .outE [], .inV], by with_unfolding_all rfl,
    .of_run hrun, ha, rfl, .outE [], rfl, [], [.inV], rfl⟩

end CypherGremlin
