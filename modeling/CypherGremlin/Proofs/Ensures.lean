import CypherGremlin.Proofs.Except

/-!
# What a computation ensures

The library's computations with a state can fail: those that take numbers, those that draft a
statement, the runs of an engine.  `Ensures I x P` says that if `I` holds of the state before and
`x` succeeds, then `I` holds of the state after and `P` of the result.  It is partial correctness
with one invariant, and there is a rule for each way in which the computations are put together.
-/

namespace CypherGremlin

variable {σ ε α β : Type} {a : α} {e : ε} {s : σ} {r : β × σ} {x : StateT σ (Except ε) α}
  {f : α → StateT σ (Except ε) β}

/-- The invariant of a state of which nothing is known. -/
def Always (_ : σ) : Prop := True

/-- If the computation succeeds, it keeps the invariant and its result has the property. -/
def Ensures (I : σ → Prop) (x : StateT σ (Except ε) α) (P : α → Prop) : Prop :=
  ∀ s, I s → ∀ a s', x s = .ok (a, s') → I s' ∧ P a

/-- A sequence succeeds if both parts do. -/
lemma stateT_bind_eq_ok : (x >>= f) s = .ok r ↔ ∃ a s', x s = .ok (a, s') ∧ f a s' = .ok r := by
  change (x s >>= fun p => f p.1 p.2) = .ok r ↔ _
  rw [bind_eq_ok]
  exact ⟨fun ⟨p, hx, hf⟩ => ⟨p.1, p.2, hx, hf⟩, fun ⟨a, s', hx, hf⟩ => ⟨(a, s'), hx, hf⟩⟩

/-- A sequence goes on from what its first part gives. -/
lemma stateT_bind_eq {s' : σ} (h : x s = .ok (a, s')) : (x >>= f) s = f a s' := by
  change (x s >>= fun p => f p.1 p.2) = f a s'
  rw [h]
  rfl

/-- A sequence fails if its first part does. -/
lemma stateT_bind_error (h : x s = .error e) : (x >>= f) s = .error e := by
  change (x s >>= fun p => f p.1 p.2) = .error e
  rw [h]
  rfl

lemma stateT_pure_eq_ok {b : α} {s' : σ} : (pure a : StateT σ (Except ε) α) s = .ok (b, s') ↔
    a = b ∧ s = s' := by
  change Except.ok (a, s) = .ok (b, s') ↔ _
  simp

/-- A sequence that ends with what is made of its first part. -/
lemma stateT_map_eq_ok {g : α → β} {b : β} {s' : σ} :
    (x >>= fun a => pure (g a)) s = .ok (b, s') ↔ ∃ a, x s = .ok (a, s') ∧ g a = b := by
  rw [stateT_bind_eq_ok]
  constructor
  · rintro ⟨a, s₁, hx, hpure⟩
    obtain ⟨rfl, rfl⟩ := stateT_pure_eq_ok.1 hpure
    exact ⟨a, hx, rfl⟩
  · rintro ⟨a, hx, rfl⟩
    exact ⟨a, s', hx, stateT_pure_eq_ok.2 ⟨rfl, rfl⟩⟩

/-- A sequence that begins without regard to the state. -/
lemma stateT_lift_bind_eq_ok {y : Except ε α} :
    ((liftM y : StateT σ (Except ε) α) >>= f) s = .ok r ↔ ∃ a, y = .ok a ∧ f a s = .ok r := by
  change ((y >>= fun a => pure (a, s)) >>= fun p => f p.1 p.2) = .ok r ↔ _
  rw [bind_assoc, bind_eq_ok]
  rfl

namespace Ensures

variable {I : σ → Prop} {P P' : α → Prop} {Q : β → Prop}

lemma pure (h : P a) : Ensures I (pure a : StateT σ (Except ε) α) P := by
  intro s hs a' s' hx
  obtain ⟨rfl, rfl⟩ := Prod.mk.inj (Except.ok.inj hx)
  exact ⟨hs, h⟩

lemma throw : Ensures I (throw e : StateT σ (Except ε) α) P := by
  intro s _ a s' hx
  simp [MonadExcept.throw, throwThe, MonadExceptOf.throw, StateT.lift, bind, Except.bind] at hx

lemma bind (hx : Ensures I x P) (hf : ∀ a, P a → Ensures I (f a) Q) : Ensures I (x >>= f) Q := by
  intro s hs b s' h
  obtain ⟨a, s₁, hxa, hfa⟩ := stateT_bind_eq_ok.1 h
  obtain ⟨hs₁, ha⟩ := hx s hs a s₁ hxa
  exact hf a ha s₁ hs₁ b s' hfa

/-- What holds of every result needs no look into the computation. -/
lemma of_forall (h : ∀ a, P a) : Ensures Always x P := fun _ _ a _ _ => ⟨trivial, h a⟩

lemma trivial (x : StateT σ (Except ε) α) : Ensures Always x fun _ => True :=
  of_forall fun _ => True.intro

lemma ite {c : Prop} [Decidable c] {y : StateT σ (Except ε) α} (hx : c → Ensures I x P)
    (hy : ¬ c → Ensures I y P) : Ensures I (if c then x else y) P := by
  split
  · exact hx ‹c›
  · exact hy ‹¬ c›

lemma mono (h : Ensures I x P) (hP : ∀ a, P a → P' a) : Ensures I x P' := by
  intro s hs a s' hx
  obtain ⟨hs', ha⟩ := h s hs a s' hx
  exact ⟨hs', hP a ha⟩

lemma mapM {R : α → β → Prop} {as : List α}
    (hf : ∀ a ∈ as, Ensures I (f a) (R a)) : Ensures I (as.mapM f) (List.Forall₂ R as) := by
  induction as with
  | nil => exact pure .nil
  | cons a rest ih =>
    obtain ⟨ha, hrest⟩ := List.forall_mem_cons.1 hf
    rw [List.mapM_cons]
    exact ha.bind fun b hb => (ih hrest).bind fun bs hbs => pure (.cons hb hbs)

end Ensures

end CypherGremlin
