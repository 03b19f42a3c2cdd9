import CypherGremlin.Proofs.Traversal.Walk

/-!
# Traversals at any depth

A change of all traversals works on every nested traversal by itself.  What it does to the program
as a whole follows from what it does to each of them, provided that the traversals inside a step do
not matter to the rest of the step.

* `Traversal.forall_mem_nested_iff` is the recursion behind all statements about nested traversals.
* `Traversal.mapBottomUp_eq_self` says that a change which leaves every nested traversal as it is
  leaves the program as it is.
* `Traversal.forall_mem_nested_mapBottomUp` says what every nested traversal is like after a change
  of all of them.
-/

namespace CypherGremlin

open List

namespace Traversal

variable {P : Traversal → Prop} {f : Traversal → Traversal} {t : Traversal}

lemma mapInside_eq_map (f : Traversal → Traversal) (t : Traversal) :
    mapInside f t = t.map (Step.mapInside f) :=
  eq_map_of_cons rfl (fun _ _ => rfl) t

/-- The nested traversals are the traversal and those nested in the traversals that its steps hold.
-/
lemma forall_mem_nested_iff :
    (∀ u ∈ nested t, P u) ↔ P t ∧ ∀ s ∈ t, ∀ c ∈ s.children, ∀ u ∈ nested c, P u := by
  simp only [nested, forall_mem_cons, walk_eq_flatMap t, flatMap_assoc, Step.walk_eq,
    flatMap_cons, forall_mem_flatMap, forall_mem_append]
  simp only [← forall_and]

lemma mem_nested_self (t : Traversal) : t ∈ nested t := mem_cons_self

lemma forall_mem_walk_iff_nested {Q : Step → Prop} :
    (∀ s ∈ walk t, Q s) ↔ ∀ u ∈ nested t, ∀ s ∈ u, Q s := by
  induction t using inductChildren with
  | nil => simp [walk, nested]
  | cons s rest hchild hrest =>
    rw [forall_mem_walk_iff, forall_mem_nested_iff, forall_mem_cons, forall_mem_cons,
      forall_mem_cons, ← forall_mem_walk_iff, hrest, forall_mem_nested_iff]
    have hinside : (∀ c ∈ s.children, ∀ x ∈ walk c, Q x) ↔
        ∀ c ∈ s.children, ∀ u ∈ nested c, ∀ x ∈ u, Q x :=
      forall₂_congr hchild
    rw [hinside]
    tauto

/-- A change that leaves every nested traversal as it is leaves the program as it is. -/
theorem mapBottomUp_eq_self (h : ∀ u ∈ nested t, f u = u) : mapBottomUp f t = t := by
  suffices hinside : mapInside f t = t by
    rw [mapBottomUp, hinside]
    exact h t (mem_nested_self t)
  obtain ⟨-, hsteps⟩ := forall_mem_nested_iff.1 h
  clear h
  induction t using inductChildren with
  | nil => rfl
  | cons s rest hchild hrest =>
    obtain ⟨hs, hafter⟩ := forall_mem_cons.1 hsteps
    rw [mapInside, hrest hafter, Step.mapInside_eq_self]
    intro c hc
    obtain ⟨hfixed, hdeeper⟩ := forall_mem_nested_iff.1 (hs c hc)
    rw [mapBottomUp, hchild c hc hdeeper, hfixed]

/-- After a change of all traversals every nested one is as the change makes a single one, if what
the change needs does not depend on what is inside the steps, and no step gets other traversals
inside. -/
theorem forall_mem_nested_mapBottomUp {Q : Traversal → Prop}
    (hinside : ∀ u, P u → P (mapInside f u)) (hf : ∀ u, P u → Q (f u))
    (hsteps : ∀ u, P u → ∀ s ∈ f u, s ∈ u ∨ s.children = []) (h : ∀ u ∈ nested t, P u) :
    ∀ u ∈ nested (mapBottomUp f t), Q u := by
  have hchange : ∀ u, P u → (∀ s ∈ u, ∀ c ∈ s.children, ∀ v ∈ nested c, Q v) → ∀ v ∈ nested (f u),
      Q v := by
    refine fun u hu hdeeper => forall_mem_nested_iff.2 ⟨hf u hu, fun s hs => ?_⟩
    rcases hsteps u hu s hs with hs | hnone
    · exact hdeeper s hs
    · simp [hnone]
  obtain ⟨ht, hdeeper⟩ := forall_mem_nested_iff.1 h
  refine hchange _ (hinside t ht) ?_
  clear ht h
  induction t using inductChildren with
  | nil => simp [mapInside]
  | cons s rest hchild hrest =>
    obtain ⟨hs, hafter⟩ := forall_mem_cons.1 hdeeper
    rw [mapInside, forall_mem_cons, Step.children_mapInside]
    refine ⟨forall_mem_map.2 fun c hc => ?_, hrest hafter⟩
    obtain ⟨hc', hcdeeper⟩ := forall_mem_nested_iff.1 (hs c hc)
    exact hchange _ (hinside c hc') (hchild c hc hcdeeper)

end Traversal

end CypherGremlin
