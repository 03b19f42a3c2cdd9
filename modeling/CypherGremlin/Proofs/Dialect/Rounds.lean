import CypherGremlin.Dialect.Basic
import CypherGremlin.Proofs.Except

/-!
# What a dialect does to a program

A dialect runs its passes in rounds, until a round changes nothing.  For most purposes the order and
the number of the rounds do not matter: `Dialect.applyTo_induction` says that a preorder which every
single change respects holds between a program and what a dialect makes of it.

There are few changes.  Five passes change one traversal at a time, and are run on all of them
(`Pass.IsLocal`); `Pass.dropUnusedLabels` looks at the whole program.  The remaining pass only
checks.
-/

namespace CypherGremlin

variable {pass : Pass}

/-- The changes of single traversals that dialects make. -/
inductive Pass.IsLocal : (Traversal → Traversal) → Prop
  | dropIdentity : IsLocal Pass.dropIdentity
  | dropReselect : IsLocal Pass.dropReselect
  | dropBarriers : IsLocal Pass.dropBarriers
  | readViaProperties : IsLocal Pass.readViaProperties
  | useNativeTests : IsLocal Pass.useNativeTests

namespace Dialect

lemma exists_isLocal {name : DialectName} (hpass : pass ∈ (ofName name).onTraversals) :
    ∃ f, Pass.IsLocal f ∧ pass.action = .change f := by
  have hmem : pass ∈ tidying ++ [.propertyAccess, .nativeTests] := by
    revert hpass
    cases name <;> simp [ofName, gremlin, cosmosdb, neptune, empty, tidying] <;> tauto
  have hcases : pass = .identitySteps ∨ pass = .reselection ∨ pass = .barriers ∨
      pass = .propertyAccess ∨ pass = .nativeTests := by simpa [tidying] using hmem
  rcases hcases with rfl | rfl | rfl | rfl | rfl
  · exact ⟨_, .dropIdentity, rfl⟩
  · exact ⟨_, .dropReselect, rfl⟩
  · exact ⟨_, .dropBarriers, rfl⟩
  · exact ⟨_, .readViaProperties, rfl⟩
  · exact ⟨_, .useNativeTests, rfl⟩

lemma eq_of_mem_onProgram {name : DialectName} (hpass : pass ∈ (ofName name).onProgram) :
    pass = .unusedLabels ∨ pass = .customSymbols := by
  revert hpass
  cases name <;> simp [ofName, gremlin, cosmosdb, neptune, empty] <;> tauto

section

variable {R : Traversal → Traversal → Prop} (refl : ∀ t, R t t)
  (trans : ∀ {t t' t''}, R t t' → R t' t'' → R t t'')

include refl trans

lemma foldlM_induction {run : Traversal → Pass → Except QueryFault Traversal} {passes : List Pass}
    (hrun : ∀ pass ∈ passes, ∀ t, Yields (run t pass) (R t)) (t : Traversal) :
    Yields (passes.foldlM run t) (R t) := by
  induction passes generalizing t with
  | nil => exact .pure (refl t)
  | cons pass rest ih =>
    obtain ⟨hpass, hrest⟩ := List.forall_mem_cons.1 hrun
    exact (hpass t).bind fun t' ht' => (ih hrest t').mono fun _ => trans ht'

variable (name : DialectName) (hlocal : ∀ f, Pass.IsLocal f → ∀ t, R t (Traversal.mapBottomUp f t))
  (hunused : ∀ t, R t (Pass.dropUnusedLabels t))

include hlocal hunused

omit refl trans hunused in
/-- A pass on every traversal respects what every local change respects. -/
lemma runOnTraversals_induction (hpass : pass ∈ (ofName name).onTraversals) (t : Traversal) :
    Yields (runOnTraversals t pass) (R t) := by
  obtain ⟨f, hf, haction⟩ := exists_isLocal hpass
  rw [runOnTraversals, haction]
  exact .ok (hlocal f hf t)

omit trans hlocal in
/-- A pass on the program respects what dropping labels respects. -/
lemma runOnProgram_induction (hpass : pass ∈ (ofName name).onProgram) (t : Traversal) :
    Yields (runOnProgram t pass) (R t) := by
  rcases eq_of_mem_onProgram hpass with rfl | rfl
  · exact .ok (hunused t)
  · exact (Yields.trivial _).bind fun _ _ => .pure (refl t)

lemma round_induction (t : Traversal) : Yields ((ofName name).round t) (R t) := by
  refine (foldlM_induction refl trans (fun _ => runOnTraversals_induction name hlocal) t).bind
    fun t' ht' => ?_
  exact (foldlM_induction refl trans (fun _ => runOnProgram_induction refl name hunused) t').mono
    fun _ => trans ht'

lemma rounds_induction (n : Nat) (t : Traversal) :
    Yields ((ofName name).rounds n t) fun settled => ∀ t' ∈ settled, R t t' := by
  induction n generalizing t with
  | zero => exact .ok (by simp)
  | succ n ih =>
    refine (round_induction refl trans name hlocal hunused t).bind fun t₁ ht₁ =>
      .ite (fun _ => ?_) fun _ => ?_
    · exact .pure (by simpa using ht₁)
    · exact (ih t₁).mono fun settled hsettled t' ht' => trans ht₁ (hsettled t' ht')

/-- A preorder that every change respects holds between a program and what a dialect makes of it. -/
theorem applyTo_induction (t : Traversal) : Yields ((ofName name).applyTo t) (R t) := by
  refine (rounds_induction refl trans name hlocal hunused maxRounds t).bind fun settled hsettled =>
    ?_
  cases settled with
  | none => exact .throw
  | some t' => exact (Yields.trivial _).bind fun _ _ => .pure (hsettled t' rfl)

end

end Dialect

end CypherGremlin
