import CypherGremlin.Proofs.Statement.Expression

/-!
# Types of pattern predicates

The types of the relationships in pattern predicates are the only texts that get into the traversal
of an expression unchecked.  `Reaches types t` is the converse, that the types do get there.  It is
kept by all ways in which traversals are put together, and the types of a pattern that is a test
reach its traversal (`Pattern.TestedBy.reaches`).
-/

namespace CypherGremlin

variable {e : Expr} {scope : Scope} {t : Traversal} {types : List String} {ts : List Traversal}

open List Traversal

/-! ## Types that a traversal follows -/

/-- Each of the types is one that the traversal follows somewhere. -/
def Reaches (types : List String) (t : Traversal) : Prop :=
  types ⊆ Traversal.collect Step.edgeTypes t

namespace Reaches

variable {u : Traversal} {s : Step}

lemma nil : Reaches [] t := nil_subset _

lemma before (h : Reaches types t) (u : Traversal) : Reaches types (t ++ u) := by
  rw [Reaches, collect_append]
  exact subset_append_of_subset_left _ h

lemma after (h : Reaches types u) (t : Traversal) : Reaches types (t ++ u) := by
  rw [Reaches, collect_append]
  exact subset_append_of_subset_right _ h

lemma inside (h : Reaches types t) (ht : t ∈ s.children) : Reaches types [s] := by
  rw [Reaches, collect_cons]
  refine subset_append_of_subset_right _ (subset_append_of_subset_left _ fun type htype => ?_)
  exact mem_flatMap.2 ⟨t, ht, h htype⟩

lemma insideAll (h : types ⊆ ts.flatMap (collect Step.edgeTypes)) (hts : ts ⊆ s.children) :
    Reaches types [s] := by
  intro type htype
  obtain ⟨t, ht, hmem⟩ := mem_flatMap.1 (h htype)
  have hone : Reaches [type] t := by simpa [Reaches] using hmem
  exact hone.inside (hts ht) mem_cons_self

/-- The types reach the traversals that a conjunction or a disjunction takes over. -/
lemma spread (h : Reaches types t) (hts : ts = [t] ∨ t = [.and ts] ∨ t = [.or ts]) :
    types ⊆ ts.flatMap (collect Step.edgeTypes) := by
  rcases hts with rfl | rfl | rfl <;> simpa [Reaches, collect_cons, Step.edgeTypes,
    Step.children] using h

lemma flatten (h : Reaches types t) (ht : t ∈ ts) : Reaches types ts.flatten := by
  obtain ⟨left, right, rfl⟩ := append_of_mem ht
  rw [flatten_append, flatten_cons]
  exact (h.before _).after _

lemma ofValue (h : Reaches types t) (goal : Goal) : Reaches types (goal.ofValue t) := by
  cases goal with
  | value _ => exact h
  | filter | operand => exact h.before _

lemma ofTest (h : Reaches types t) (goal : Goal) : Reaches types (goal.ofTest t) := by
  have hchoose :
    Reaches types [.choose (.traversal t) [.constant (.bool true)] [.constant (.bool false)]] :=
    h.inside (by simp [Step.children])
  cases goal with
  | filter => exact h
  | value mode => exact hchoose.ofValue (.value mode)
  | operand => exact hchoose.ofValue .operand

end Reaches

lemma Hop.TestedBy.reaches {hop : Hop} (h : Hop.TestedBy scope hop t) :
    Reaches hop.rel.types t := by
  have hedge : Reaches hop.rel.types [hop.rel.direction.edgeStep hop.rel.types] := by
    cases hop.rel.direction <;> simp [Reaches, Direction.edgeStep, collect_cons, Step.edgeTypes]
  cases h
  exact (((hedge.before _).before _).before _).before _

lemma Pattern.TestedBy.reaches {p : Pattern} (h : Pattern.TestedBy scope p t) :
    Reaches (p.hops.flatMap fun hop => hop.rel.types) t := by
  obtain ⟨-, -, -, hhops⟩ := h
  refine Reaches.after (fun type htype => ?_) _
  obtain ⟨hop, hhop, htype⟩ := mem_flatMap.1 htype
  obtain ⟨steps, hsteps, htest⟩ := exists_mem_of_forall₂ hhops.flip hop hhop
  exact htest.reaches.flatten hsteps htype

end CypherGremlin
