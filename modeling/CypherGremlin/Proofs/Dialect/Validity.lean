import CypherGremlin.Proofs.Dialect.Meaning
import CypherGremlin.Proofs.Program.Validity

/-!
# Dialects keep programs valid

Whether a step is valid does not depend on the traversals inside it, so it is enough to look at
edits of one traversal.  The steps that read properties need nothing to be valid, and a test that is
built in has the operands of the custom test that it stands for, but needs no symbol.

No pass touches a step that starts a program.
-/

namespace CypherGremlin

variable {registry : Registry} {s : Step} {p : Predicate} {f : Traversal → Traversal}

open List Traversal

namespace Step

lemma ownValues_mapInside (f : Traversal → Traversal) (s : Step) :
    (s.mapInside f).ownValues = s.ownValues := by
  cases s <;> rfl

lemma ownPredicate?_mapInside (f : Traversal → Traversal) (s : Step) :
    (s.mapInside f).ownPredicate? = s.ownPredicate? := by
  cases s with
  | choose c yes no => cases c <;> rfl
  | _ => rfl

lemma IsValid.mapInside (h : s.IsValid registry) (f : Traversal → Traversal) :
    (s.mapInside f).IsValid registry where
  project heq := h.project (by cases s <;> simp_all [Step.mapInside, mapInsideEntries_eq])
  union heq := h.union (by cases s <;> simp_all [Step.mapInside, mapInsideAll_eq])
  coalesce heq := h.coalesce (by cases s <;> simp_all [Step.mapInside, mapInsideAll_eq])
  function g heq := h.function g (by cases s <;> simp_all [Step.mapInside])
  predicate test argument heq := h.predicate test argument (ownPredicate?_mapInside f s ▸ heq)
  leaves := by
    rw [Step.leaves, ownValues_mapInside, ownPredicate?_mapInside]
    exact h.leaves

lemma IsValid.of_plain (hshape : s.checkShape registry = .ok ()) (hvals : s.ownValues = [])
    (hpred : s.ownPredicate? = none) : s.IsValid registry := by
  refine check_eq_ok.1 ?_
  rw [check, hshape, hvals, hpred]
  rfl

end Step

namespace Pass

/-! ## Edits -/

lemma operands_nativePredicate (p : Predicate) : (nativePredicate p).operands = p.operands := by
  fun_cases nativePredicate p <;> rfl

lemma eq_custom_of_nativePredicate {test : CustomPredicate} {argument : Option Value} :
    nativePredicate p = .custom test argument → p = .custom test argument := by
  fun_cases nativePredicate p with
  | case1 => simp
  | case2 => exact fun h => h
  | case3 => exact fun h => h

lemma check_nativePredicate {step : String} (h : p.check registry step = .ok ()) :
    (nativePredicate p).check registry step = .ok () := by
  rw [Predicate.check_eq_ok] at h ⊢
  rw [operands_nativePredicate]
  exact ⟨fun test argument heq => h.1 test argument (eq_custom_of_nativePredicate heq), h.2⟩

lemma Edit.isValid {spare : Label → Prop} {before after : List Step} {r : Traversal}
    (h : Edit spare before s r after) (hs : s.IsValid registry) : ∀ x ∈ r, x.IsValid registry := by
  have hprops : ∀ keys, (Step.properties keys).IsValid registry := fun _ => .of_plain rfl rfl rfl
  have hval : Step.value.IsValid registry := .of_plain rfl rfl rfl
  cases h with
  | identity | barrier | label | reselect => simp
  | value key =>
    have hkey : (Step.hasKey key).IsValid registry := .of_plain rfl rfl rfl
    simpa using ⟨hprops _, hkey, hval⟩
  | values keys => simpa using ⟨hprops _, hval⟩
  | is | has =>
    rw [← Step.check_eq_ok] at hs
    exact forall_mem_singleton.2 (Step.check_eq_ok.1 (check_nativePredicate hs))

lemma Edits.isValid {spare : Label → Prop} {t t' : Traversal} (h : Edits spare [] t t')
    (ht : ∀ s ∈ walk t, s.IsValid registry) : ∀ s ∈ walk t', s.IsValid registry := by
  rw [forall_mem_walk_iff] at ht ⊢
  intro x hx
  rcases h.mem x hx with hx | ⟨s, hs, before, r, after, hedit, hx⟩
  · exact ht x hx
  · exact ⟨hedit.isValid (ht s hs).1 x
      hx, by simp [Step.children_of_isSimple (hedit.isSimple x hx)]⟩

end Pass

/-! ## Dialects -/

/-- The second program begins as the first one does, and is valid if the first one is. -/
structure StaysValid (registry : Registry) (t t' : Traversal) : Prop where
  start : ∀ s rest, t = s :: rest → s.isStart = true → ∃ rest', t' = s :: rest'
  steps : (∀ s ∈ Traversal.walk t, s.IsValid registry) → ∀ s ∈ Traversal.walk t', s.IsValid registry

namespace StaysValid

variable {t t' t'' : Traversal}

lemma refl (t : Traversal) : StaysValid registry t t := ⟨fun _ rest h _ => ⟨rest, h⟩, fun h => h⟩

lemma trans (h : StaysValid registry t t') (h' : StaysValid registry t' t'') :
    StaysValid registry t t'' where
  start s rest heq hs := by
    obtain ⟨rest', heq'⟩ := h.start s rest heq hs
    exact h'.start s rest' heq' hs
  steps hsteps := h'.steps (h.steps hsteps)

lemma mapBottomUp {spare : Label → Prop} (hf : ∀ t, Pass.Edits spare [] t (f t)) (t : Traversal) :
    StaysValid registry t (Traversal.mapBottomUp f t) where
  start _ rest heq hs := heq ▸ mapBottomUp_start hf hs rest
  steps := forall_mem_walk_mapBottomUp (fun _ hs => hs.mapInside f) fun t => (hf t).isValid

end StaysValid

/-- What a dialect makes of a program begins as the program does, and is valid if the program is. -/
theorem Dialect.staysValid_applyTo (name : DialectName) (t : Traversal) :
    Yields ((ofName name).applyTo t) (StaysValid registry t) := by
  exact applyTo_induction .refl .trans name (fun _ hf => .mapBottomUp hf.edits)
    (fun _ => .mapBottomUp (Pass.edits_filter_putsUnused _) _) t

end CypherGremlin
