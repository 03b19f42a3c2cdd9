import CypherGremlin.Proofs.Statement.Orderly
import CypherGremlin.Proofs.Statement.Matching

/-!
# What clauses add to the program

A clause appends steps to the program and leaves a draft.  `Adds B draft t draft'` says once what
the clauses have in common that neither project nor drop variables: their steps do not reduce, what
is inside the steps is orderly, the only labels that they put are those of `B` and new numbers, and
every variable stays in scope.

A clause that writes, updates or deletes does nothing else to the scope of paths (`AddsOnly`).
-/

namespace CypherGremlin

variable {B : Set Label} {a b t : Traversal} {draft draft₁ draft₂ : Draft} {l : Label}
  {nullable : Bool} {kind : VarKind}

open List Traversal

/-! ## Numbers -/

/-- The label has a number from a range, as elements without a variable and rows get one. -/
def Label.IsNumberedIn (low high : Nat) (l : Label) : Prop :=
  ∃ n, low ≤ n ∧ n < high ∧ (l = .token (.unnamed n.toUInt32) ∨ l = .token (.freshId n.toUInt32))

lemma Label.IsNumberedIn.mono {low high low' high' : Nat} (h : l.IsNumberedIn low high)
    (hlow : low' ≤ low) (hhigh : high ≤ high') : l.IsNumberedIn low' high' := by
  obtain ⟨n, hn, hn', hl⟩ := h
  exact ⟨n, hlow.trans hn, hn'.trans_le hhigh, hl⟩

namespace Pattern

def nodeVars (p : Pattern) : List String := (p.start :: p.hops.map (·.node)).filterMap (·.var)

/-- The variables of the relationships. -/
def relVars (p : Pattern) : List String := p.hops.filterMap (·.rel.var)

variable (p : Pattern)

lemma mem_nodeVars_start : ∀ v ∈ p.start.var, v ∈ p.nodeVars := fun _ hv =>
  mem_filterMap.2 ⟨p.start, mem_cons_self, hv⟩

lemma mem_nodeVars : ∀ hop ∈ p.hops, ∀ v ∈ hop.node.var, v ∈ p.nodeVars := fun hop hhop _ hv =>
  mem_filterMap.2 ⟨hop.node, mem_cons_of_mem _ (mem_map_of_mem hhop), hv⟩

lemma mem_relVars : ∀ hop ∈ p.hops, ∀ v ∈ hop.rel.var, v ∈ p.relVars := fun hop hhop _ hv =>
  mem_filterMap.2 ⟨hop, hhop, hv⟩

end Pattern

/-! ## Steps that are added -/

/-- What steps do that a clause adds to the program: they do not reduce, labels inside them are
orderly, and they put the given labels and new numbers only.  Variables stay in scope. -/
structure Adds (B : Set Label) (draft : Draft) (t : Traversal) (draft' : Draft) : Prop where
  steady : ∀ s ∈ t, s.Steady
  puts : ∀ l ∈ puts t, l ∈ B ∨ l.IsNumberedIn draft.next draft'.next
  next : draft.next ≤ draft'.next
  binds : ∀ var, draft.scope.binds var = true → draft'.scope.binds var = true

/-- And paths stay as they are. -/
structure AddsOnly (B : Set Label) (draft : Draft) (t : Traversal) (draft' : Draft) : Prop extends
    Adds B draft t draft' where
  paths : draft'.scope.paths = draft.scope.paths

/-- The variables that are not in scope yet are among the given labels. -/
def Draft.Admits (names : List String) (B : Set Label) (draft : Draft) : Prop :=
  ∀ var ∈ names, draft.scope.binds var = false → .named var ∈ B

lemma Traversal.puts_eq_empty (h : ∀ s ∈ t, s.isPut = false) : puts t = ∅ := by
  refine Set.eq_empty_of_forall_notMem fun l hl => ?_
  have hput := h _ (mem_puts.1 hl)
  simp [Step.isPut] at hput

namespace Adds

lemma append (ha : Adds B draft a draft₁) (hb : Adds B draft₁ b draft₂) :
    Adds B draft (a ++ b) draft₂ := by
  refine ⟨forall_mem_append.2 ⟨ha.steady, hb.steady⟩, fun l hl => ?_, ha.next.trans hb.next,
    fun var hvar => hb.binds var (ha.binds var hvar)⟩
  rw [puts_append] at hl
  rcases hl with hl | hl
  · exact (ha.puts l hl).imp_right fun hnum => hnum.mono le_rfl hb.next
  · exact (hb.puts l hl).imp_right fun hnum => hnum.mono ha.next le_rfl

lemma admits {names : List String} (h : Adds B draft t draft₁) {C : Set Label}
    (hC : draft.Admits names C) : draft₁.Admits names C := by
  refine fun var hvar hnew => hC var hvar (Bool.eq_false_iff.2 fun hold => ?_)
  simp [h.binds var hold] at hnew

end Adds

namespace AddsOnly

lemma append (ha : AddsOnly B draft a draft₁) (hb : AddsOnly B draft₁ b draft₂) :
    AddsOnly B draft (a ++ b) draft₂ :=
  ⟨ha.toAdds.append hb.toAdds, hb.paths.trans ha.paths⟩

lemma of_steady (hsteady : ∀ s ∈ t, s.Steady) (hputs : puts t = ∅)
    (hnext : draft.next ≤ draft₁.next) (hscope : draft₁.scope = draft.scope) :
    AddsOnly B draft t draft₁ :=
  ⟨⟨hsteady, by simp [hputs], hnext, fun var hvar => by rwa [hscope]⟩, by rw [hscope]⟩

/-- Quiet steps, after which at most some numbers are taken. -/
lemma of_quiet (hquiet : ∀ s ∈ t, s.Quiet) (hnext : draft.Counts draft₁) :
    AddsOnly B draft t draft₁ :=
  of_steady (fun s hs => (hquiet s hs).steady) (puts_eq_empty fun s hs => (hquiet s hs).put)
    hnext.next hnext.scope

lemma nil (draft : Draft) : AddsOnly B draft [] draft := of_quiet (forall_mem_nil _) (.refl _)

end AddsOnly

namespace Draft

variable {draft' : Draft}

lemma Computes.neat {mode : Mode} {e : Expr} (h : draft.Computes (.value mode) e t draft') :
    Neat t := h.lowers.meets

lemma Tests.allQuiet {e : Option Expr} (h : draft.Tests e t draft') : AllQuiet t := by
  cases h with
  | none => exact .nil
  | some h => exact forall_mem_singleton.2 ⟨⟨rfl, forall_mem_singleton.2 h.lowers.meets⟩, rfl⟩

end Draft

lemma Scope.binds_declare {scope : Scope} {var other : String} :
    (scope.declare var kind nullable).binds other = true ↔ other = var ∨
      scope.binds other = true := by
  simp only [binds, declare, Table.has_iff]
  exact Table.mem_keys_put

lemma steady_rebinding (row : Label) (vars : List String) : ∀ s ∈ rebinding row vars, s.Steady := by
  refine forall_mem_cons.2 ⟨.leaf rfl rfl, forall_mem_flatMap.2 fun var _ => ?_⟩
  exact forall_mem_cons.2 ⟨.leaf rfl rfl,
    forall_mem_cons.2 ⟨.leaf rfl rfl, forall_mem_singleton.2 (.leaf rfl rfl)⟩⟩

lemma puts_rebinding {row : Label} {vars : List String} :
    l ∈ puts (rebinding row vars) ↔ l = row ∨ ∃ var ∈ vars, l = .named var := by
  simp [mem_puts, rebinding]

/-- The label of an element is put where its variable is among the given labels. -/
lemma Draft.Labels.addsOnly {draft' : Draft} {var : Option String}
    (h : draft.Labels kind nullable var l draft') (hB : ∀ v ∈ var, .named v ∈ B) :
    AddsOnly B draft [.as l] draft' := by
  have hsteady : ∀ s ∈ [Step.as l], s.Steady := forall_mem_singleton.2 (.leaf rfl rfl)
  cases h with
  | number =>
    refine ⟨⟨hsteady, fun l hl => .inr ?_, Nat.le_succ _, fun _ hvar => hvar⟩, rfl⟩
    rw [puts_as, Set.mem_singleton_iff] at hl
    exact ⟨draft.next, le_rfl, Nat.lt_succ_self _, .inl hl⟩
  | var =>
    refine ⟨⟨hsteady, fun l hl => .inl ?_, le_rfl, fun u hu => Scope.binds_declare.2 (.inr hu)⟩,
      rfl⟩
    rw [puts_as, Set.mem_singleton_iff] at hl
    exact hl ▸ hB _ rfl

end CypherGremlin
