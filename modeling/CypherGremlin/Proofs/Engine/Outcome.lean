import CypherGremlin.Proofs.Engine.Machine
import CypherGremlin.Proofs.Ensures

/-!
# Outcomes of runs

What a run of an engine gives, if it does not stop, follows the structure of the computation.  These
are the rules for the computations of `Engine.Machine`, beside the general ones of `Ensures`.
-/

namespace CypherGremlin

variable {w : World} {α : Type} {r : α × World} {f : World → Except Halt α}

namespace Run

lemma pure_eq_ok {a : α} : (pure a : Run α) w = .ok r ↔ (a, w) = r := by
  change Except.ok (a, w) = .ok r ↔ _
  simp

lemma observe_eq_ok : observe f w = .ok r ↔ ∃ a, f w = .ok a ∧ (a, w) = r := by
  simp only [observe]
  cases f w <;> simp [Except.map]

lemma throw_ne_ok {halt : Halt} : (throw halt : Run α) w ≠ .ok r := by
  simp [throw, throwThe, MonadExceptOf.throw, StateT.lift, bind, Except.bind]

end Run

namespace Ensures

variable {I : World → Prop}

lemma observe {P : α → Prop} (h : ∀ w a, f w = .ok a → P a) : Ensures I (Run.observe f) P := by
  intro w hw a w' hrun
  obtain ⟨a, hf, hr⟩ := Run.observe_eq_ok.1 hrun
  obtain ⟨rfl, rfl⟩ := Prod.mk.inj hr
  exact ⟨hw, h w a hf⟩

/-- What holds of everything that each traverser gives holds of everything. -/
lemma each {p : Traverser → Run (List Traverser)} {Q : Traverser → Prop}
    (h : ∀ t, Ensures I (p t) fun part => ∀ o ∈ part, Q o) (ts : List Traverser) :
    Ensures I (Machine.each p ts) fun out => ∀ o ∈ out, Q o := by
  refine (mapM fun t _ => h t).bind fun parts hparts => pure fun o ho => ?_
  obtain ⟨part, hpart, ho⟩ := List.mem_flatten.1 ho
  obtain ⟨t, _, hpart⟩ := exists_mem_of_forall₂ hparts part hpart
  exact hpart o ho

lemma emit {e : Obj → Run (List Obj)} {Q : Obj → Prop}
    (h : ∀ obj, Ensures I (e obj) fun objs => ∀ o ∈ objs, Q o) (ts : List Traverser) :
    Ensures I (Machine.emit e ts) fun out => ∀ o ∈ out, Q o.obj := by
  refine each (fun t => (h t.obj).bind fun objs hobjs => pure fun o ho => ?_) ts
  obtain ⟨obj, hobj, rfl⟩ := List.mem_map.1 ho
  exact hobjs obj hobj

end Ensures

end CypherGremlin
