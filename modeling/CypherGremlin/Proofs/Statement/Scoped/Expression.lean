import CypherGremlin.Proofs.Statement.Composed

/-!
# Labels in expressions

An expression reads variables in scope, and a variable in scope is a visible label, unless it is a
path; of a path the labels of its elements are visible.  `Scope.VisibleIn` says so, and
`Composed.scoped` says that the traversal of an expression then refers to visible labels only.
-/

namespace CypherGremlin

variable {V : Set Label} {scope : Scope} {var : String}

open Traversal

/-! ## Scopes -/

/-- The elements of the path can be selected. -/
def PathShape.VisibleIn (V : Set Label) (shape : PathShape) : Prop :=
  ∀ element ∈ shape.elements, element.label ∈ V

/-- The variables in scope and the elements of paths can be selected. -/
structure Scope.VisibleIn (V : Set Label) (scope : Scope) : Prop where
  vars : ∀ var ∈ Table.keys scope.vars, .named var ∈ V
  paths : ∀ entry ∈ scope.paths, entry.2.VisibleIn V

namespace Scope.VisibleIn

variable {W : Set Label}

lemma mono (h : scope.VisibleIn V) (hsub : V ⊆ W) : scope.VisibleIn W :=
  ⟨fun var hvar => hsub (h.vars var hvar), fun entry hentry element helem =>
    hsub (h.paths entry hentry element helem)⟩

lemma binds (h : scope.VisibleIn V) (hvar : scope.binds var = true) : .named var ∈ V :=
  h.vars var (Table.mem_keys_of_has hvar)

end Scope.VisibleIn

namespace Scoped

variable {first : Bool} {t : Traversal}

lemma whereLabel {l : Label} (h : l ∈ V) (comparison : LabelComparison) :
    Scoped first V [.whereLabel comparison l] :=
  step trivial (by simpa [Step.references] using h) (by simp [Step.children])

lemma gather {branches : List Traversal} (h : ∀ t ∈ branches, Scoped true V t) :
    Scoped first V [.union branches, .fold] :=
  andThen (a := [_]) (inside trivial rfl h) (bland (t := [.fold]) rfl)

lemma reads {T : Sources} (hscope : scope.VisibleIn V) (h : ∀ s ∈ t, s.Reads T scope) :
    Scoped false V t := by
  refine of_forall fun s hs => ?_
  have hplainly := Step.plainly_of_isReading (h s hs).reading
  refine step hplainly.stands (fun l hl => ?_) (by simp [hplainly.children])
  obtain ⟨v, rfl, hv⟩ := (h s hs).bound l hl
  exact hscope.binds hv

end Scoped

/-- What is put together from the traversals of an expression refers to visible labels only. -/
theorem Composed.scoped {T : Sources} {loose : Bool} {t : Traversal}
    (h : Composed T scope loose t) (hscope : scope.VisibleIn V) : Scoped false V t := by
  induction h with
  | idle hidle => exact .bland (isBland_of_isIdle hidle)
  | reads hreads | pattern _ hreads => exact .reads hscope hreads
  | frame hframe _ _ ih =>
    have hbland := (Bool.and_eq_true_iff.1 (Step.traits_of_isFrame hframe).1).1
    exact .inside (Step.standsAnywhere_of_isBland hbland) (Step.references_of_isBland hbland)
      fun c hc => (ih c hc).inner
  | gather _ _ ih => exact .gather fun t ht => (ih t ht).inner
  | path hknown _ hpicks =>
    refine .gather fun t ht => ?_
    obtain ⟨element, helem, tag, rfl, hidle, -⟩ := hpicks t ht
    have hvis := hscope.paths _ (Table.mem_of_get? hknown) element helem
    exact (Scoped.select hvis).andThen (.bland (isBland_of_isIdle hidle))
  | andThen _ hidle _ ih => exact ih.andThen (.bland (isBland_of_isIdle hidle))
  | loosen _ ih => exact ih
  | compare op n _ _ _ _ ihright ihleft =>
    have hput : Scoped false V [.as (.token (.generated n))] :=
      .inside rfl rfl (by simp [Step.children])
    exact .append ((ihright.andThen hput).andThen ihleft)
      (.whereLabel (.inr (by simp [mem_puts])) _)

end CypherGremlin
