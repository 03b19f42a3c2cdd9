import Mathlib.Data.List.Forall2

/-!
# Computations that can fail

Most functions of the library give an `Except`.  A proof about one that succeeded takes it apart
with the following: a sequence succeeds if both of its parts do, and a list of computations if each
of them does.
-/

namespace CypherGremlin

variable {ε α β γ : Type} {as : List α} {e : ε} {bs : List β} {b : β} {x : Except ε α}
  {f : α → Except ε β}

open List

lemma bind_eq_ok : (x >>= f) = .ok b ↔ ∃ a, x = .ok a ∧ f a = .ok b := by
  cases x <;> simp [bind, Except.bind]

/-- A sequence fails if its first part does, or if the second does after it. -/
lemma bind_eq_error : x >>= f = .error e ↔ x = .error e ∨ ∃ a, x = .ok a ∧ f a = .error e := by
  cases x <;> simp [bind, Except.bind]

lemma pure_eq_ok {a b : α} : (pure a : Except ε α) = .ok b ↔ a = b := by
  simp [pure, Except.pure]

lemma map_eq_ok {f : α → β} : x.map f = .ok b ↔ ∃ a, x = .ok a ∧ f a = b := by
  cases x <;> simp [Except.map]

lemma check_bind_eq_ok {x : Except ε Unit} {y : Except ε β} :
    (x >>= fun _ => y) = .ok b ↔ x = .ok () ∧ y = .ok b := by
  rw [bind_eq_ok]
  exact ⟨fun ⟨_, hx, hy⟩ => ⟨hx, hy⟩, fun ⟨hx, hy⟩ => ⟨(), hx, hy⟩⟩

/-- A check of every item of a list. -/
lemma forM_eq_ok {f : α → Except ε Unit} : as.forM f = .ok () ↔ ∀ a ∈ as, f a = .ok () := by
  induction as with
  | nil => simp [pure, Except.pure]
  | cons a rest ih => rw [forall_mem_cons, ← ih, ← check_bind_eq_ok]; rfl

/-! What a computation on fixed data gives is found by running it. -/

instance decidableExistsOk {P : α → Prop} [DecidablePred P] :
    ∀ x : Except ε α, Decidable (∃ a, x = .ok a ∧ P a)
  | .ok a => decidable_of_iff (P a) (by simp)
  | .error _ => .isFalse (by simp)

instance decidableSucceeds : ∀ x : Except ε α, Decidable (∃ a, x = .ok a)
  | .ok a => .isTrue ⟨a, rfl⟩
  | .error _ => .isFalse (by simp)

lemma mapM_eq_ok : as.mapM f = .ok bs ↔ List.Forall₂ (fun a b => f a = .ok b) as bs := by
  induction as generalizing bs with
  | nil =>
    rw [mapM_nil, pure_eq_ok, forall₂_nil_left_iff]
    exact eq_comm
  | cons a rest ih =>
    simp only [mapM_cons, bind_eq_ok, pure_eq_ok, forall₂_cons_left_iff, ih]
    constructor
    · rintro ⟨b, hb, bs', hbs', rfl⟩
      exact ⟨b, bs', hb, hbs', rfl⟩
    · rintro ⟨b, bs', hb, hbs', rfl⟩
      exact ⟨b, hb, bs', hbs', rfl⟩

lemma exists_mem_of_forall₂ {R : α → β → Prop} (h : List.Forall₂ R as bs) :
    ∀ b ∈ bs, ∃ a ∈ as, R a b := by
  induction h with
  | nil => simp
  | cons hab _ ih =>
    refine forall_mem_cons.2 ⟨⟨_, mem_cons_self, hab⟩, fun b hb => ?_⟩
    obtain ⟨a, ha, hab⟩ := ih b hb
    exact ⟨a, mem_cons_of_mem _ ha, hab⟩

/-- Every result of a list of computations is the result of one of them. -/
lemma exists_mem_of_mapM_eq_ok (h : as.mapM f = .ok bs) : ∀ b ∈ bs, ∃ a ∈ as, f a = .ok b :=
  exists_mem_of_forall₂ (mapM_eq_ok.1 h)

/-- Computations that succeed on every item succeed on the list. -/
lemma mapM_of_forall_eq_ok {g : α → β} (h : ∀ a ∈ as, f a = .ok (g a)) :
    as.mapM f = .ok (as.map g) :=
  mapM_eq_ok.2 (forall₂_map_right_iff.2 (forall₂_same.2 h))

/-- The results of a list of computations that all succeed. -/
lemma eq_map_of_mapM_eq_ok (default : β) (h : as.mapM f = .ok bs) :
    bs = as.map (fun a => (f a).toOption.getD default) ∧
      ∀ a ∈ as, f a = .ok ((f a).toOption.getD default) := by
  induction mapM_eq_ok.1 h with
  | nil => simp
  | @cons a b rest bs hab hrest ih =>
    obtain ⟨rfl, hall⟩ := ih (mapM_eq_ok.2 hrest)
    have hb : b = (f a).toOption.getD default := by simp [hab, Except.toOption]
    exact ⟨by rw [map_cons, ← hb], forall_mem_cons.2 ⟨hb ▸ hab, hall⟩⟩

/-- What comes after each computation can come after all of them. -/
lemma mapM_bind_pure (f : α → Except ε β) (g : β → γ) (as : List α) :
    (as.mapM fun a => f a >>= fun b => pure (g b)) = as.mapM f >>= fun bs => pure (bs.map g) := by
  induction as with
  | nil => rfl
  | cons a rest ih =>
    simp only [mapM_cons, ih]
    cases f a with
    | error e => rfl
    | ok b => cases rest.mapM f <;> rfl

/-! ## What a computation yields -/

/-- If the computation succeeds, its result has the property. -/
def Yields (x : Except ε α) (P : α → Prop) : Prop := ∀ a, x = .ok a → P a

namespace Yields

variable {P P' : α → Prop} {Q : β → Prop} {x y : Except ε α}

lemma ok {a : α} (h : P a) : Yields (.ok a : Except ε α) P := by
  rintro _ ⟨⟩
  exact h

lemma pure {a : α} (h : P a) : Yields (pure a : Except ε α) P := ok h

lemma error : Yields (.error e : Except ε α) P := nofun

lemma throw : Yields (throw e : Except ε α) P := error

lemma bind (hx : Yields x P) (hf : ∀ a, P a → Yields (f a) Q) : Yields (x >>= f) Q := by
  intro b h
  obtain ⟨a, hxa, hfa⟩ := bind_eq_ok.1 h
  exact hf a (hx a hxa) b hfa

lemma map {f : α → β} (hx : Yields x fun a => Q (f a)) : Yields (x.map f) Q := by
  intro b h
  obtain ⟨a, hxa, rfl⟩ := map_eq_ok.1 h
  exact hx a hxa

lemma mapError {ε' : Type} {f : ε → ε'} (hx : Yields x P) : Yields (x.mapError f) P := by
  cases x with
  | error => exact error
  | ok => exact ok (hx _ rfl)

/-- What every step of a fold keeps holds in the end. -/
lemma foldlM {f : β → α → Except ε β} (hf : ∀ a ∈ as, ∀ b, Q b → Yields (f b a) Q) (hb : Q b) :
    Yields (as.foldlM f b) Q := by
  induction as generalizing b with
  | nil => exact pure hb
  | cons a rest ih =>
    obtain ⟨ha, hrest⟩ := forall_mem_cons.1 hf
    rw [foldlM_cons]
    exact (ha b hb).bind fun _ => ih hrest

lemma mono (h : Yields x P) (hP : ∀ a, P a → P' a) : Yields x P' := fun a ha => hP a (h a ha)

lemma trivial (x : Except ε α) : Yields x fun _ => True := fun _ _ => True.intro

lemma self (x : Except ε α) : Yields x (x = .ok ·) := fun _ h => h

lemma ite {c : Prop} [Decidable c] (hx : c → Yields x P) (hy : ¬ c → Yields y P) :
    Yields (if c then x else y) P := by
  split
  · exact hx ‹c›
  · exact hy ‹¬ c›

end Yields

end CypherGremlin
