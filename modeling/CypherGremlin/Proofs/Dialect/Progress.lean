import CypherGremlin.Proofs.Dialect.Meaning
import CypherGremlin.Proofs.Traversal.Nested
import Mathlib.Algebra.GroupWithZero.Nat
import Mathlib.Algebra.Order.BigOperators.Group.List
import Mathlib.Algebra.Order.Group.Nat

/-!
# Passes do not undo each other

A dialect stops after a round that changes nothing, where "nothing" is said of the whole round and
only up to the value of numbers.  It could be that passes undo each other's work, all the more as
one of them adds steps.  They do not: every pass leaves a traversal as it is or makes its
`Traversal.pending` smaller, the number of steps that some pass can drop or replace.  `Reduces` says
so, and it is a preorder in which nothing but the same traversal comes back.

* `Dialect.fixed_of_rounds`: what a dialect stops at is left as it is by a further round.
* `Dialect.onTraversals_fixed`, `Dialect.onProgram_fixed`: and so by each single pass, in every
  nested traversal.
-/

namespace CypherGremlin

variable {f : Traversal → Traversal} {s : Step} {t t' : Traversal} {pass : Pass}

open List Traversal

/-! ## How much is left to do -/

/-- A pass can drop the step or put another one in its place. -/
def Step.isPending : Step → Bool
  | .identity | .barrier | .as _ | .select _ | .values _ => true
  | .is p | .has _ p => p.isReplaceable
  | _ => false

namespace Traversal

/-- The number of steps at any depth that a pass can drop or replace. -/
def pending (t : Traversal) : Nat := (walk t).countP Step.isPending

lemma pending_append (a b : Traversal) : pending (a ++ b) = pending a + pending b := by
  simp [pending, walk_eq_flatMap]

lemma pending_cons (s : Step) (rest : Traversal) :
    pending (s :: rest) = pending [s] + pending rest :=
  pending_append [s] rest

lemma pending_singleton (s : Step) :
    pending [s] = s.isPending.toNat + (s.children.map pending).sum := by
  have hchild : s.children.map pending = s.children.map (List.countP Step.isPending ∘ walk) := rfl
  rw [pending, walk, walk, append_nil, Step.walk_eq, countP_cons, countP_flatMap, hchild]
  cases s.isPending <;> simp [Nat.add_comm]

/-! ### Equal traversals -/

lemma sameAll_iff {ts ts' : List Traversal} :
    sameAll ts ts' = true ↔ List.Forall₂ (fun t t' => same t t' = true) ts ts' := by
  induction ts generalizing ts' with
  | nil => cases ts' <;> simp [sameAll]
  | cons t rest ih => cases ts' <;> simp [sameAll, ih]

lemma forall₂_of_sameEntries {entries entries' : List (Label × Traversal)}
    (h : sameEntries entries entries' = true) :
    List.Forall₂ (fun t t' => same t t' = true) (entries.map Prod.snd) (entries'.map Prod.snd) := by
  induction entries generalizing entries' with
  | nil => cases entries' <;> simp_all [sameEntries]
  | cons entry rest ih => cases entries' <;> simp_all [sameEntries]

lemma forall₂_of_sameKeys {keys keys' : List (Traversal × SortOrder)}
    (h : sameKeys keys keys' = true) :
    List.Forall₂ (fun t t' => same t t' = true) (keys.map Prod.fst) (keys'.map Prod.fst) := by
  induction keys generalizing keys' with
  | nil => cases keys' <;> simp_all [sameKeys]
  | cons entry rest ih => cases keys' <;> simp_all [sameKeys]

end Traversal

lemma Predicate.isReplaceable_of_same {p q : Predicate} (h : p.same q = true) :
    p.isReplaceable = q.isReplaceable := by
  fun_cases Predicate.same p q with
  | case9 test a test' b =>
    simp only [Predicate.same, Bool.and_eq_true, beq_iff_eq] at h
    obtain ⟨rfl, h⟩ := h
    cases a <;> cases b <;> simp_all [Value.sameOption, isReplaceable]
  | case11 => simp_all [Predicate.same]
  | _ => rfl

/-- Equal steps are both pending or both not, and the traversals inside them are equal. -/
lemma Step.children_of_same {s' : Step} (h : s.same s' = true) : s.isPending = s'.isPending ∧
    List.Forall₂ (fun t t' => Traversal.same t t' = true) s.children s'.children := by
  rw [Step.same.eq_def] at h
  split at h
  case h_14 k p l q => exact ⟨Predicate.isReplaceable_of_same (Bool.and_eq_true_iff.1 h).2, .nil⟩
  case h_18 p q => exact ⟨Predicate.isReplaceable_of_same h, .nil⟩
  case h_28 c yes no d yes' no' =>
    rw [Bool.and_eq_true, Bool.and_eq_true] at h
    cases c <;> cases d <;> simp_all [Condition.same, Step.children, Step.isPending]
  case h_40 entries entries' => exact ⟨rfl, forall₂_of_sameEntries h⟩
  case h_41 keys keys' => exact ⟨rfl, forall₂_of_sameKeys h⟩
  case h_62 => cases h
  all_goals simp_all [Step.isPending, Step.children, sameAll_iff]

/-- There is as much left to do in equal traversals. -/
theorem Traversal.pending_eq_of_same (h : same t t' = true) : pending t = pending t' := by
  induction t using inductChildren generalizing t' with
  | nil => cases t' <;> simp_all [same]
  | cons s rest hchild hrest =>
    cases t' with
    | nil => simp [same] at h
    | cons s' rest' =>
      rw [same, Bool.and_eq_true] at h
      obtain ⟨hpending, hsame⟩ := Step.children_of_same h.1
      have hall : s.children.map pending = s'.children.map pending := by
        rw [← forall₂_eq_eq_eq, forall₂_map_left_iff, forall₂_map_right_iff]
        exact ((forall₂_and_left _ _).2 ⟨hchild, hsame⟩).imp fun _ _ hc => hc.1 hc.2
      rw [pending_cons, pending_cons s', pending_singleton, pending_singleton, hpending, hall,
        hrest h.2]

/-! ## Passes make it less -/

/-- The second traversal is the first one, or there is less left to do in it. -/
def Reduces (t t' : Traversal) : Prop := t' = t ∨ Traversal.pending t' < Traversal.pending t

namespace Reduces

open Traversal

variable {t'' a a' b b' r : Traversal}

lemma refl (t : Traversal) : Reduces t t := .inl rfl

lemma pending_le (h : Reduces t t') : pending t' ≤ pending t := by
  rcases h with rfl | h
  · exact Nat.le_refl _
  · exact h.le

lemma trans (h : Reduces t t') (h' : Reduces t' t'') : Reduces t t'' := by
  rcases h with rfl | h
  · exact h'
  · exact .inr (h'.pending_le.trans_lt h)

/-- What has been changed does not come back. -/
lemma eq_of_pending_eq (h : Reduces t t') (heq : pending t' = pending t) : t' = t :=
  h.resolve_right heq.not_lt

lemma antisymm (h : Reduces t t') (h' : Reduces t' t) : t' = t :=
  h.eq_of_pending_eq (h.pending_le.antisymm h'.pending_le)

lemma append (ha : Reduces a a') (hb : Reduces b b') : Reduces (a ++ b) (a' ++ b') := by
  have hle := ha.pending_le
  have hle' := hb.pending_le
  rw [Reduces, pending_append, pending_append]
  rcases ha with rfl | ha
  · rcases hb with rfl | hb
    · exact .inl rfl
    · exact .inr (by omega)
  · exact .inr (by omega)

lemma cons (s : Step) (h : Reduces b b') : Reduces (s :: b) (s :: b') := (refl [s]).append h

/-- A pending step is replaced by others that are not pending. -/
lemma replace (hs : s.isPending = true) (hr : pending r = 0) (h : Reduces b b') :
    Reduces (s :: b) (r ++ b') := by
  have hle := h.pending_le
  rw [Reduces, pending_cons, pending_singleton, hs, pending_append, hr]
  exact .inr (by simp; omega)

/-- A pending step that has been dropped does not come back. -/
lemma ne_cons (hs : s.isPending = true) (h : Reduces b b') : b' ≠ s :: b := by
  rintro rfl
  have hle := h.pending_le
  rw [pending_cons, pending_singleton, hs, Bool.toNat_true] at hle
  omega

section

variable (hf : ∀ u, Reduces u (f u))

include hf

lemma mapInside (t : Traversal) : Reduces t (Traversal.mapInside f t) := by
  induction t using inductChildren with
  | nil => exact refl _
  | cons s rest hchild hrest =>
    have hall : ∀ c ∈ s.children, Reduces c (mapBottomUp f c) :=
      fun c hc => (hchild c hc).trans (hf _)
    rw [Traversal.mapInside]
    by_cases hsame : ∀ c ∈ s.children, mapBottomUp f c = c
    · rw [Step.mapInside_eq_self hsame]
      exact hrest.cons s
    · -- One of the traversals inside has become smaller, and none of them larger.
      push Not at hsame
      obtain ⟨c, hc, hne⟩ := hsame
      have hsum : (s.children.map fun c => pending (mapBottomUp f c)).sum <
          (s.children.map pending).sum :=
        sum_lt_sum _ _ (fun c hc => (hall c hc).pending_le) ⟨c, hc, (hall c hc).resolve_left hne⟩
      have hown : (s.mapInside f).isPending = s.isPending := by cases s <;> rfl
      have hstep : Reduces [s] [s.mapInside f] := by
        refine .inr ?_
        rw [pending_singleton, pending_singleton, hown, Step.children_mapInside, map_map]
        exact Nat.add_lt_add_left hsum _
      exact hstep.append hrest

lemma mapBottomUp (t : Traversal) : Reduces t (Traversal.mapBottomUp f t) :=
  (mapInside hf t).trans (hf _)

/-- A change of all traversals that leaves the program as it is leaves every nested traversal as it
is. -/
theorem forall_mem_nested_eq (h : Traversal.mapBottomUp f t = t) : ∀ u ∈ nested t, f u = u := by
  have hfixed : ∀ {t : Traversal}, Traversal.mapBottomUp f t = t → Traversal.mapInside f t = t := by
    intro t ht
    refine (mapInside hf t).antisymm ?_
    have hlast : Reduces (Traversal.mapInside f t) (Traversal.mapBottomUp f t) := hf _
    rwa [ht] at hlast
  refine forall_mem_nested_iff.2 ⟨?_, ?_⟩
  · rwa [Traversal.mapBottomUp, hfixed h] at h
  · replace h := hfixed h
    induction t using inductChildren with
    | nil => simp
    | cons s rest hchild hrest =>
      rw [Traversal.mapInside, List.cons.injEq] at h
      refine forall_mem_cons.2 ⟨fun c hc => ?_, hrest h.2⟩
      have hc' : Traversal.mapBottomUp f c = c := by
        have hmap : s.children.map (Traversal.mapBottomUp f) = s.children.map id := by
          rw [← Step.children_mapInside, h.1, map_id]
        exact map_inj_left.1 hmap c hc
      refine forall_mem_nested_iff.2 ⟨?_, hchild c hc (hfixed hc')⟩
      rwa [Traversal.mapBottomUp, hfixed hc'] at hc'

end

end Reduces

namespace Pass

variable {spare : Label → Prop} {before after : List Step} {r : Traversal}

lemma Edit.isPending (h : Edit spare before s r after) : s.isPending = true ∧ pending r = 0 := by
  cases h with
  | is hp | has key hp =>
    exact ⟨hp, by
      simp [pending_singleton, Step.isPending, Step.children, isReplaceable_nativePredicate]⟩
  | _ => exact ⟨rfl, rfl⟩

/-- Passes leave a traversal as it is or leave less to do. -/
lemma Edits.reduces (h : Edits spare before t t') : Reduces t t' := by
  induction h with
  | nil => exact .refl _
  | keep s _ ih => exact ih.cons s
  | edit hedit _ ih => exact ih.replace hedit.isPending.1 hedit.isPending.2

lemma reduces_dropUnusedLabels (t : Traversal) : Reduces t (dropUnusedLabels t) :=
  .mapBottomUp (fun t => (edits_filter_putsUnused _ t).reduces) t

end Pass

/-! ## Rounds -/

namespace Dialect

open Traversal

variable {name : DialectName}

lemma reduces_local (hf : Pass.IsLocal f) (t : Traversal) : Reduces t (mapBottomUp f t) :=
  .mapBottomUp (fun t => (hf.edits t).reduces) t

lemma reduces_round (name : DialectName) (t : Traversal) :
    Yields ((ofName name).round t) (Reduces t) :=
  round_induction .refl .trans name (fun _ => reduces_local) Pass.reduces_dropUnusedLabels t

/-- What a dialect stops at is left as it is by a further round, and is equal to itself. -/
theorem fixed_of_rounds (n : Nat) (t : Traversal) : Yields ((ofName name).rounds n t) fun settled =>
    ∀ t' ∈ settled, (ofName name).round t' = .ok t' ∧ same t' t' = true := by
  induction n generalizing t with
  | zero => exact .ok (by simp)
  | succ n ih =>
    intro settled hrounds
    obtain ⟨t₁, hround, h⟩ := bind_eq_ok.1 hrounds
    by_cases hsame : same t₁ t = true
    · rw [if_pos hsame] at h
      obtain rfl : t₁ = t :=
        (reduces_round name t t₁ hround).eq_of_pending_eq (pending_eq_of_same hsame)
      obtain rfl := pure_eq_ok.1 h
      simpa using ⟨hround, hsame⟩
    · rw [if_neg hsame] at h
      exact ih t₁ settled h

/-- Passes that together give back what they were given leave it as it is one by one. -/
lemma forall_mem_eq_of_foldlM_eq {run : Traversal → Pass → Except QueryFault Traversal}
    {passes : List Pass} (hrun : ∀ pass ∈ passes, ∀ t, Yields (run t pass) (Reduces t))
    (h : passes.foldlM run t = .ok t) : ∀ pass ∈ passes, run t pass = .ok t := by
  induction passes with
  | nil => simp
  | cons pass rest ih =>
    obtain ⟨hpass, hrest⟩ := forall_mem_cons.1 hrun
    rw [foldlM_cons] at h
    obtain ⟨t₁, ht₁, h⟩ := bind_eq_ok.1 h
    obtain rfl : t₁ = t := (hpass t t₁ ht₁).antisymm (foldlM_induction .refl .trans hrest t₁ t h)
    exact forall_mem_cons.2 ⟨ht₁, ih hrest h⟩

lemma foldlM_eq_of_round_eq (h : (ofName name).round t = .ok t) :
    (ofName name).onTraversals.foldlM runOnTraversals t = .ok t ∧
      (ofName name).onProgram.foldlM runOnProgram t = .ok t := by
  obtain ⟨t₁, ht₁, h⟩ := bind_eq_ok.1 h
  have hfirst : Reduces t t₁ := foldlM_induction .refl .trans
    (fun _ => runOnTraversals_induction name fun _ => reduces_local) t t₁ ht₁
  have hsecond : Reduces t₁ t := foldlM_induction .refl .trans
    (fun _ => runOnProgram_induction .refl name Pass.reduces_dropUnusedLabels) t₁ t h
  obtain rfl := hfirst.antisymm hsecond
  exact ⟨ht₁, h⟩

theorem onTraversals_fixed (h : (ofName name).round t = .ok t)
    (hpass : pass ∈ (ofName name).onTraversals) (hf : pass.action = .change f) :
    ∀ u ∈ nested t, f u = u := by
  have hrun :=
    forall_mem_eq_of_foldlM_eq (fun _ => runOnTraversals_induction name fun _ => reduces_local)
    (foldlM_eq_of_round_eq h).1 pass hpass
  obtain ⟨f', hlocal, haction⟩ := exists_isLocal hpass
  obtain rfl : f = f' := by simpa [hf] using haction
  rw [runOnTraversals, haction] at hrun
  exact Reduces.forall_mem_nested_eq (fun t => (hlocal.edits t).reduces) (Except.ok.inj hrun)

/-- Where a round changes nothing, no pass changes the program. -/
theorem onProgram_fixed (h : (ofName name).round t = .ok t)
    (hpass : pass ∈ (ofName name).onProgram) : runOnProgram t pass = .ok t :=
  forall_mem_eq_of_foldlM_eq
    (fun _ => runOnProgram_induction .refl name Pass.reduces_dropUnusedLabels)
    (foldlM_eq_of_round_eq h).2 pass hpass

end Dialect

end CypherGremlin
