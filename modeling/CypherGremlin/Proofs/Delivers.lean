import CypherGremlin.Fault
import CypherGremlin.Proofs.Ensures

/-!
# What a computation delivers

A query is refused for many reasons, and one of them is that a label is not in scope.  `Delivers x
P` says that this is not the reason if `x` fails, and that the result has the property `P` if `x`
succeeds.  `DeliversFrom s x Q` says the same of a computation with a state that is run from `s`,
where `Q` is about the result and the state after it.  There is a rule for each way in which
computations are put together.
-/

namespace CypherGremlin

variable {σ α β : Type} {e : QueryFault} {a : α} {as : List α} {z : Except QueryFault α} {c : Prop}
  {R : α → Prop} {f : α → Except QueryFault β}

def QueryFault.reportsLabel : QueryFault → Bool
  | .undefinedLabel _ => true
  | _ => false

/-- The computation reports no label, and if it succeeds, its result has the property. -/
structure Delivers (x : Except QueryFault α) (P : α → Prop) : Prop where
  result : Yields x P
  fault : ∀ e, x = .error e → e.reportsLabel = false

namespace Delivers

variable {P P' : α → Prop} {Q : β → Prop} {x y : Except QueryFault α}

lemma ok (h : P a) : Delivers (.ok a) P := ⟨.ok h, by simp⟩

lemma pure (h : P a) : Delivers (pure a) P := ok h

lemma error (h : e.reportsLabel = false) : Delivers (.error e) P := by
  refine ⟨.error, fun e' he' => ?_⟩
  obtain rfl := Except.error.inj he'
  exact h

lemma throw (h : e.reportsLabel = false) : Delivers (throw e) P := error h

lemma bind (hx : Delivers x P) (hf : ∀ a, P a → Delivers (f a) Q) : Delivers (x >>= f) Q := by
  cases x with
  | error e => exact error (hx.fault e rfl)
  | ok a => exact hf a (hx.result a rfl)

lemma throw_bind (h : e.reportsLabel = false) :
    Delivers ((MonadExcept.throw e : Except QueryFault α) >>= f) Q := error h

lemma mono (h : Delivers x P) (hP : ∀ a, P a → P' a) : Delivers x P' := ⟨h.result.mono hP, h.fault⟩

lemma ite [Decidable c] (hx : c → Delivers x P) (hy : ¬ c → Delivers y P) :
    Delivers (if c then x else y) P := by
  split
  · exact hx ‹c›
  · exact hy ‹¬ c›

lemma eq (h : Delivers x P) : Delivers x (x = .ok ·) := ⟨.self x, h.fault⟩

lemma mapM {R : α → β → Prop} (h : ∀ a ∈ as, Delivers (f a) (R a)) :
    Delivers (as.mapM f) (List.Forall₂ R as) := by
  induction as with
  | nil => exact pure .nil
  | cons a rest ih =>
    obtain ⟨ha, hrest⟩ := List.forall_mem_cons.1 h
    rw [List.mapM_cons]
    exact ha.bind fun b hb => (ih hrest).bind fun bs hbs => pure (.cons hb hbs)

end Delivers

/-! ## From one state -/

/-- From the given state the computation reports no label, and if it succeeds, its result and the
state after it are so related. -/
def DeliversFrom (s : σ) (x : StateT σ (Except QueryFault) α) (Q : α → σ → Prop) : Prop :=
  Delivers (x s) fun r => Q r.1 r.2

namespace DeliversFrom

variable {s : σ} {x y : StateT σ (Except QueryFault) α} {P P' : α → σ → Prop} {Q : β → σ → Prop}
  {f : α → StateT σ (Except QueryFault) β}

lemma pure (h : P a s) : DeliversFrom s (pure a) P := .ok h

lemma throw (h : e.reportsLabel = false) :
    DeliversFrom s (throw e : StateT σ (Except QueryFault) α) P := .error h

lemma bind (hx : DeliversFrom s x P) (hf : ∀ a s', P a s' → DeliversFrom s' (f a) Q) :
    DeliversFrom s (x >>= f) Q :=
  Delivers.bind hx fun r hr => hf r.1 r.2 hr

lemma throw_bind (h : e.reportsLabel = false) :
    DeliversFrom s ((MonadExcept.throw e : StateT σ (Except QueryFault) α) >>= f) Q := .error h

lemma mono (h : DeliversFrom s x P) (hP : ∀ a s', P a s' → P' a s') : DeliversFrom s x P' :=
  Delivers.mono h fun r hr => hP r.1 r.2 hr

lemma eq (h : DeliversFrom s x P) : DeliversFrom s x fun a s' => x s = .ok (a, s') := Delivers.eq h

lemma ite [Decidable c] (hx : c → DeliversFrom s x P) (hy : ¬ c → DeliversFrom s y P) :
    DeliversFrom s (if c then x else y) P := by
  split
  · exact hx ‹c›
  · exact hy ‹¬ c›

lemma lift (hz : Delivers z R) :
    DeliversFrom s (liftM z : StateT σ (Except QueryFault) α) fun a s' => R a ∧ s' = s :=
  hz.bind fun _ ha => .pure ⟨ha, rfl⟩

lemma lift_bind (hz : Delivers z R) (hf : ∀ a, R a → DeliversFrom s (f a) Q) :
    DeliversFrom s (liftM z >>= f) Q := by
  refine (lift hz).bind ?_
  rintro a s' ⟨ha, rfl⟩
  exact hf a ha

/-- Checks of every item of a list leave the given state. -/
lemma forM_bind {g : α → Except QueryFault PUnit}
    {f : PUnit → StateT σ (Except QueryFault) β} (hg : ∀ a ∈ as, Delivers (g a) fun _ => R a)
    (hf : (∀ a ∈ as, R a) → DeliversFrom s (f ⟨⟩) Q) :
    DeliversFrom s
    ((as.forM fun a => (liftM (g a) : StateT σ (Except QueryFault) PUnit)) >>= f) Q := by
  induction as with
  | nil => exact hf (List.forall_mem_nil _)
  | cons a rest ih =>
    obtain ⟨ha, hrest⟩ := List.forall_mem_cons.1 hg
    have hcons : ((a :: rest).forM fun a => (liftM (g a) : StateT σ (Except QueryFault) PUnit)) =
        liftM (g a) >>= fun _ => rest.forM fun a => liftM (g a) := rfl
    rw [hcons, bind_assoc]
    exact lift_bind ha fun _ hRa => ih hrest fun hR => hf (List.forall_mem_cons.2 ⟨hRa, hR⟩)

lemma get_bind {f : σ → StateT σ (Except QueryFault) β} (h : DeliversFrom s (f s) Q) :
    DeliversFrom s (MonadState.get >>= f) Q := h

end DeliversFrom

end CypherGremlin
