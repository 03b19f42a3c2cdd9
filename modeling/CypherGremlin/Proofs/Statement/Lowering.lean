import CypherGremlin.Proofs.Engine.ReadOnly
import CypherGremlin.Proofs.Statement.Composed

/-!
# Steps without effects

* `Traversal.Walks` is for the steps of patterns, which move through the graph and test and label
  what they meet.
* `Traversal.Calm` is for steps that only read: none changes the graph, fills a bucket or runs
  something for its effects.
-/

namespace CypherGremlin

variable {t : Traversal}

/-! ## Walking -/

/-- The step moves through the graph, or tests or labels what it meets. -/
def Step.isWalking : Step → Bool
  | .V | .outE _ | .inE _ | .bothE _ | .inV | .outV | .otherV => true
  | .has _ _ | .hasLabel _ | .is _ | .whereLabel _ _ | .filter _ | .select _ | .as _ => true
  | _ => false

/-- All steps of the traversal, at any depth, move, test or label. -/
abbrev Traversal.Walks (t : Traversal) : Prop := AllSteps Step.isWalking t

namespace Traversal.Walks

lemma bindingSelect (binding : Binding) (v : String) : Walks (binding.select v) := by
  rw [Binding.select]
  split
  · exact allSteps_append.2 ⟨allSteps_leaf rfl rfl, allSteps_leaf rfl rfl⟩
  · exact allSteps_leaf rfl rfl

lemma of_isProbe (h : ∀ s ∈ t, s.isProbe = true) : Walks t := by
  refine allSteps_of_forall fun s hs => ?_
  have hprobe := h s hs
  rw [Step.isProbe.eq_def] at hprobe
  split at hprobe
  case h_10 => cases hprobe
  all_goals exact ⟨rfl, rfl⟩

end Traversal.Walks

namespace Traversal

lemma Walks.calm (h : t.Walks) : t.Calm := by
  refine h.mono fun s hs => ?_
  cases s with
  | addV | addE | property | propertyFrom | drop | aggregate | sideEffect => cases hs
  | _ => rfl

lemma Calm.inert (h : t.Calm) : t.Inert := by
  intro s hs
  have hcalm := h s hs
  cases s <;> simp_all [Step.isCalm, Step.changesGraph, Step.fills]

lemma Calm.access (isMap : Bool) (key : String) : Calm [.access isMap key] := by
  cases isMap <;> exact allSteps_leaf rfl rfl

end Traversal

end CypherGremlin
