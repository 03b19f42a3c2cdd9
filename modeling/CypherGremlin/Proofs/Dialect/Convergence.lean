import CypherGremlin.Proofs.Dialect.NormalForm
import CypherGremlin.Proofs.Dialect.Trimming
import CypherGremlin.Proofs.Traversal.Equality
import CypherGremlin.Proofs.Traversal.Scoping

/-!
# Dialects settle within three rounds

Where labels keep to their places (`Traversal.Anchored`), no dialect needs more than three rounds.

1. The passes that look at single steps have done their work after the first round, and none of the
  others makes new work for them (`Pass.IsStepwise`).  The program still refers to the same numbered
  labels, so all the labels are gone that nothing refers to.  The program is then `Dialect.Ready`.
2. In the second round only two passes are left with work: those that drop reselected labels and
  barriers.  Each of them leaves nothing to do for itself, and the one that is run last makes no new
  work for the other.
3. The third round changes nothing.

The result is `Dialect.isSome_of_rounds`.
-/

namespace CypherGremlin

variable {passes : List Pass} {n : Nat} {e : QueryFault} {t w : Traversal} {s : Step}

open List Pass Traversal

/-! ## Passes that look at single steps -/

namespace Pass

/-- The change works on each step by itself and does all that it can do at once. -/
structure IsStepwise (f : Traversal → Traversal) : Prop where
  eq_flatMap : ∀ t, f t = t.flatMap fun s => f [s]
  rests : ∀ s, ∀ x ∈ f [s], f [x] = [x]
  lasting : Step.Lasting fun s => f [s] = [s]

/-- The change has nothing to do with any step of the program. -/
def AtRest (f : Traversal → Traversal) (t : Traversal) : Prop := ∀ s ∈ walk t, f [s] = [s]

lemma isStepwise_dropIdentity : IsStepwise dropIdentity where
  eq_flatMap t := by
    induction t with
    | nil => rfl
    | cons s rest ih =>
      rw [flatMap_cons, ← ih, dropIdentity, dropIdentity, dropIdentity, ← filter_append,
        singleton_append]
  rests s x hx := by
    obtain ⟨-, hkept⟩ := mem_filter.1 hx
    exact filter_eq_self.2 (forall_mem_singleton.2 hkept)
  lasting := by
    constructor
    · intro s f h
      cases s <;> first | rfl | cases h
    · intro s x _ hx _
      cases x <;> first | rfl | cases hx

lemma isStepwise_readViaProperties : IsStepwise readViaProperties where
  eq_flatMap t := by simp [readViaProperties]
  rests s := by
    simp only [readViaProperties, flatMap_singleton]
    fun_cases viaProperties s with
    | case3 s hone hmany =>
      refine forall_mem_singleton.2 ?_
      rw [viaProperties]
      · exact hone
      · exact hmany
    | _ => simp [viaProperties]
  lasting := by
    simp only [readViaProperties, flatMap_singleton]
    constructor
    · intro s f h
      cases s <;> first | rfl | exact h
    · intro s x _ hx _
      cases x <;> first | rfl | cases hx

lemma nativeStep_eq_self (h : s.isSimple = true) : nativeStep s = s := by
  cases s <;> simp_all [Step.isSimple, nativeStep, nativePredicate_eq_self]

lemma isStepwise_useNativeTests : IsStepwise useNativeTests where
  eq_flatMap t := map_eq_flatMap
  rests s := by
    refine forall_mem_singleton.2 (congrArg (fun x => [x]) ?_)
    rcases edit_nativeStep [] s with heq | hedit
    · rw [singleton_inj.1 heq, singleton_inj.1 heq]
    · exact nativeStep_eq_self (hedit.isSimple _ (mem_singleton_self _))
  lasting := by
    constructor
    · intro s f h
      cases s <;> first | rfl | exact h
    · exact fun s x _ hx _ => congrArg (fun x => [x]) (nativeStep_eq_self hx)

namespace IsStepwise

variable {f : Traversal → Traversal}

lemma eq_self (hf : IsStepwise f) (h : ∀ s ∈ t, f [s] = [s]) : f t = t := by
  rw [hf.eq_flatMap, flatMap_congr h]
  exact flatMap_singleton' t

lemma mapBottomUp_eq_self (hf : IsStepwise f) (h : AtRest f t) : mapBottomUp f t = t :=
  Traversal.mapBottomUp_eq_self fun u hu => hf.eq_self (forall_mem_walk_iff_nested.1 h u hu)

/-- Once is enough. -/
lemma atRest_mapBottomUp (hf : IsStepwise f) (hlocal : IsLocal f) (t : Traversal) :
    AtRest f (mapBottomUp f t) := by
  refine forall_mem_walk_iff_nested.2 (forall_mem_nested_mapBottomUp ?_ ?_ ?_ fun _ _ => trivial)
  · exact fun _ _ => trivial
  · intro u _ s hs
    rw [hf.eq_flatMap, mem_flatMap] at hs
    obtain ⟨x, -, hs⟩ := hs
    exact hf.rests x s hs
  · exact fun u _ => (hlocal.edits u).mem_or_children

end IsStepwise

/-! ## Labels that nothing refers to -/

lemma putsUnused_numberedUses (t : Traversal) (s : Step) :
    putsUnused ((walk t).flatMap uses) s = putsUnused (collect Step.numberedUses t) s := by
  rw [Bool.eq_iff_iff, putsUnused_iff, putsUnused_iff]
  refine exists_congr fun l => and_congr_right fun _ => and_congr_right fun hl => not_congr ?_
  simp [collect, Step.numberedUses, hl]

end Pass

/-- Every numbered label in the program is referred to. -/
def Traversal.Labelled (t : Traversal) : Prop :=
  ∀ s ∈ walk t, putsUnused (collect Step.numberedUses t) s = false

namespace Traversal.Labelled

variable {t' : Traversal}

lemma dropUnusedLabels_eq_self (h : Labelled t) : dropUnusedLabels t = t := by
  refine mapBottomUp_eq_self fun u hu => filter_eq_self.2 fun s hs => ?_
  rw [putsUnused_numberedUses, forall_mem_walk_iff_nested.1 h u hu s hs]
  rfl

lemma lasting (used : List Label) : Step.Lasting fun s => putsUnused used s = false where
  inside s f h := by cases s <;> exact h
  simple s x _ hx _ := by cases x <;> first | rfl | cases hx

/-- As long as the program refers to the same labels, they do not become superfluous. -/
lemma trimmed (h : Labelled t) (ht : Anchored t) (htrim : Trimmed t t') : Labelled t' := by
  rw [Labelled, htrim.uses ht]
  exact htrim.lasting ht _ (lasting _) h

end Traversal.Labelled

lemma Pass.labelled_dropUnusedLabels (ht : Anchored t) : Labelled (dropUnusedLabels t) := by
  rw [Labelled, (Trimmed.dropUnusedLabels t).uses ht]
  refine forall_mem_walk_iff_nested.2
    (forall_mem_nested_mapBottomUp (P := fun _ => True) ?_ ?_ ?_ ?_)
  · exact fun _ _ => trivial
  · intro u _ s hs
    rw [← putsUnused_numberedUses]
    simpa using (mem_filter.1 hs).2
  · exact fun u _ s hs => .inl (mem_filter.1 hs).1
  · exact fun _ _ => trivial

/-! ## Reselected labels and barriers -/

namespace Pass

variable {u : Traversal}

lemma dropReselectAfter_idem (before : List Step) (t : Traversal) :
    dropReselectAfter before (dropReselectAfter before t) = dropReselectAfter before t := by
  fun_induction dropReselectAfter before t with
  | case1 => rfl
  | case2 before s rest _ ih => exact ih
  | case3 before s rest hs ih => rw [dropReselectAfter, if_neg hs, ih]

lemma dropBarriers_cons (hs : s ≠ .barrier) (rest : Traversal) :
    dropBarriers (s :: rest) = s :: dropBarriers rest := by
  rw [dropBarriers]
  exact fun _ _ heq => absurd heq hs

lemma dropBarriers_idem (t : Traversal) : dropBarriers (dropBarriers t) = dropBarriers t := by
  fun_induction dropBarriers t with
  | case1 => rfl
  | case2 next rest _ ih => exact ih
  | case3 next rest hnext ih =>
    have hkept : dropBarriers (next :: rest) = next :: dropBarriers rest :=
      dropBarriers_cons (by rintro rfl; exact hnext rfl) rest
    rw [hkept, dropBarriers, if_neg hnext, ← hkept, ih]
  | case4 s rest hother ih =>
    by_cases hs : s = .barrier
    · obtain rfl : rest = [] := eq_nil_iff_forall_not_mem.2 fun x hx => by
        obtain ⟨next, tail, rfl⟩ := exists_cons_of_ne_nil (ne_nil_of_mem hx)
        exact hother next tail hs rfl
      rw [hs]
      rfl
    · rw [dropBarriers_cons hs, ih]

/-- Where barriers have been dropped, steps that wait for nothing have the neighbours they had. -/
lemma prefix_of_prefix_dropBarriers (hw : ∀ s ∈ w, gathers s = false) (h : w <+: dropBarriers u) :
    w <+: u := by
  fun_induction dropBarriers u generalizing w with
  | case1 => exact h
  | case2 next rest hnext ih =>
    rcases prefix_cons_iff.1 (ih hw h) with rfl | ⟨w, rfl, -⟩
    · exact nil_prefix
    · simp [hw next] at hnext
  | case3 next rest _ _ =>
    rcases prefix_cons_iff.1 h with rfl | ⟨w, rfl, -⟩
    · exact nil_prefix
    · simpa [gathers] using hw .barrier
  | case4 s rest _ ih =>
    rcases prefix_cons_iff.1 h with rfl | ⟨w, rfl, hrest⟩
    · exact nil_prefix
    · exact cons_prefix_cons.2 ⟨rfl, ih (fun x hx => hw x (mem_cons_of_mem s hx)) hrest⟩

lemma infix_of_infix_dropBarriers (hw : ∀ s ∈ w, gathers s = false) (h : w <:+: dropBarriers u) :
    w <:+: u := by
  fun_induction dropBarriers u with
  | case1 => exact h
  | case2 next rest _ ih => exact infix_cons (ih h)
  | case3 next rest _ ih =>
    rcases infix_cons_iff.1 h with hfirst | hrest
    · rcases prefix_cons_iff.1 hfirst with rfl | ⟨w, rfl, -⟩
      · exact nil_infix
      · simpa [gathers] using hw .barrier
    · exact infix_cons (ih hrest)
  | case4 s rest _ ih =>
    rcases infix_cons_iff.1 h with hfirst | hrest
    · rcases prefix_cons_iff.1 hfirst with rfl | ⟨w, rfl, hafter⟩
      · exact nil_infix
      · have hafter' :=
          prefix_of_prefix_dropBarriers (fun x hx => hw x (mem_cons_of_mem s hx)) hafter
        exact (cons_prefix_cons.2 ⟨rfl, hafter'⟩).isInfix
    · exact infix_cons (ih hrest)

/-- Dropping barriers makes no new work for the pass that drops reselected labels. -/
lemma dropReselect_dropBarriers (h : dropReselect u = u) :
    dropReselect (dropBarriers u) = dropBarriers u := by
  rw [dropReselect_eq_self_iff] at h ⊢
  intro e l he hfound
  refine h e l he (infix_of_infix_dropBarriers ?_ hfound)
  have hgathers : gathers e = false := by cases he <;> rfl
  exact forall_mem_cons.2 ⟨hgathers, by simp [gathers]⟩

lemma dropReselect_mapInside (h : dropReselect u = u) (f : Traversal → Traversal) :
    dropReselect (mapInside f u) = mapInside f u := by
  rw [dropReselect_eq_self_iff] at h ⊢
  intro e l he hfound
  rw [mapInside_eq_map, infix_map_iff] at hfound
  obtain ⟨w, hw, heq⟩ := hfound
  have hlen : w.length = 3 := by simpa using (congrArg List.length heq).symm
  obtain ⟨e', a, b, rfl⟩ := length_eq_three.1 hlen
  simp only [map_cons, map_nil, List.cons.injEq, and_true] at heq
  obtain ⟨rfl, hput, hsel⟩ := heq
  obtain rfl : a = .as l := by cases a <;> simp_all [Step.mapInside]
  obtain rfl : b = .select [l] := by cases b <;> simp_all [Step.mapInside]
  refine h e' l ?_ hw
  rw [← givesElement_iff] at he ⊢
  revert he
  cases e' <;> exact id

end Pass

namespace Dialect

/-- What is left to do in the second round. -/
def tidied (t : Traversal) : Traversal := mapBottomUp dropBarriers (mapBottomUp dropReselect t)

lemma trimmed_tidied (t : Traversal) : Trimmed t (tidied t) :=
  (Trimmed.mapBottomUp IsLocal.dropReselect.edits t).trans
    (Trimmed.mapBottomUp IsLocal.dropBarriers.edits _)

/-- Nothing is left of it afterwards. -/
lemma tidied_tidied (t : Traversal) : tidied (tidied t) = tidied t := by
  have hfirst : ∀ u ∈ nested (mapBottomUp dropReselect t), dropReselect u = u :=
    forall_mem_nested_mapBottomUp (fun _ _ => trivial)
      (fun u _ => dropReselectAfter_idem [] u)
      (fun u _ => (edits_dropReselectAfter [] u).mem_or_children) fun _ _ => trivial
  have hboth : ∀ u ∈ nested (tidied t), dropReselect u = u ∧ dropBarriers u = u :=
    forall_mem_nested_mapBottomUp (P := fun u => dropReselect u = u)
      (fun _ hu => dropReselect_mapInside hu _)
      (fun u hu => ⟨dropReselect_dropBarriers hu, dropBarriers_idem u⟩)
      (fun u _ => (edits_dropBarriers [] u).mem_or_children) hfirst
  have hreselect : mapBottomUp dropReselect (tidied t) = tidied t :=
    mapBottomUp_eq_self fun u hu => (hboth u hu).1
  have hbarriers : mapBottomUp dropBarriers (tidied t) = tidied t :=
    mapBottomUp_eq_self fun u hu => (hboth u hu).2
  rw [tidied, hreselect, hbarriers]

/-! ## Rounds -/

variable {name : DialectName}

/-- What a program is like after the first round. -/
structure Ready (name : DialectName) (t : Traversal) : Prop where
  anchored : Anchored t
  labelled : Labelled t
  atRest : ∀ pass ∈ (ofName name).onTraversals, ∀ f, pass.action = .change f → IsStepwise f →
    AtRest f t

lemma Ready.trimmed {t' : Traversal} (h : Ready name t) (htrim : Trimmed t t') : Ready name t' where
  anchored := htrim.anchored h.anchored
  labelled := h.labelled.trimmed h.anchored htrim
  atRest pass hpass f haction hf :=
    htrim.lasting h.anchored _ hf.lasting (h.atRest pass hpass f haction hf)

lemma atRest_of_foldlM (hpasses : ∀ pass ∈ passes, pass ∈ (ofName name).onTraversals)
    (ht : Anchored t) : Yields (passes.foldlM runOnTraversals t) fun t' => Trimmed t t' ∧
      ∀ pass ∈ passes, ∀ f, pass.action = .change f → IsStepwise f → AtRest f t' := by
  induction passes generalizing t with
  | nil => exact .pure ⟨.refl t, by simp⟩
  | cons pass rest ih =>
    obtain ⟨hpass, hrest⟩ := forall_mem_cons.1 hpasses
    obtain ⟨f, hlocal, haction⟩ := exists_isLocal hpass
    have htrim := Trimmed.mapBottomUp hlocal.edits t
    have hrun : runOnTraversals t pass = .ok (mapBottomUp f t) := by rw [runOnTraversals, haction]
    rw [foldlM_cons, hrun]
    refine (ih hrest (htrim.anchored ht)).mono fun t' ht' => ⟨htrim.trans ht'.1, ?_⟩
    refine forall_mem_cons.2 ⟨fun g hg hstepwise => ?_, ht'.2⟩
    obtain rfl : f = g := by simpa [haction] using hg
    exact ht'.1.lasting (htrim.anchored ht) _ hstepwise.lasting
      (hstepwise.atRest_mapBottomUp hlocal t)

lemma foldlM_onProgram (hname : name ≠ .empty) (t : Traversal) :
    Yields ((ofName name).onProgram.foldlM runOnProgram t) fun t' => t' = dropUnusedLabels t := by
  cases name with
  | gremlin => exact .pure rfl
  | cosmosdb => exact .pure rfl
  | neptune =>
    have hcheck : Yields (runOnProgram (dropUnusedLabels t) .customSymbols) fun t' =>
        t' = dropUnusedLabels t :=
      (Yields.trivial _).bind fun _ _ => .pure rfl
    exact hcheck.bind fun _ h => .pure h
  | empty => exact absurd rfl hname

lemma ready_of_round (hname : name ≠ .empty) (ht : Anchored t) :
    Yields ((ofName name).round t) fun t' => Ready name t' ∧ Trimmed t t' := by
  refine (atRest_of_foldlM (fun _ hpass => hpass) ht).bind fun t₁ ht₁ => ?_
  refine (foldlM_onProgram hname t₁).mono ?_
  rintro _ rfl
  have hanchored := ht₁.1.anchored ht
  have htrim := Trimmed.dropUnusedLabels t₁
  refine ⟨⟨htrim.anchored hanchored, labelled_dropUnusedLabels hanchored, ?_⟩, ht₁.1.trans htrim⟩
  exact fun pass hpass f haction hf =>
    htrim.lasting hanchored _ hf.lasting (ht₁.2 pass hpass f haction hf)

/-- Besides the passes that only tidy up, a dialect has passes that look at single steps. -/
lemma exists_onTraversals_eq (hname : name ≠ .empty) :
    ∃ others, (ofName name).onTraversals = tidying ++ others ∧
    ∀ pass ∈ others, ∃ f, pass.action = .change f ∧ IsStepwise f := by
  have haccess : ∃ f, propertyAccess.action = .change f ∧ IsStepwise f :=
    ⟨_, rfl, isStepwise_readViaProperties⟩
  have htests : ∃ f, nativeTests.action = .change f ∧ IsStepwise f :=
    ⟨_, rfl, isStepwise_useNativeTests⟩
  cases name with
  | gremlin => exact ⟨[], rfl, by simp⟩
  | cosmosdb => exact ⟨[.propertyAccess, .nativeTests], rfl, by simpa using ⟨haccess, htests⟩⟩
  | neptune => exact ⟨[.nativeTests], rfl, by simpa using htests⟩
  | empty => exact absurd rfl hname

lemma foldlM_eq_self (h : ∀ pass ∈ passes, runOnTraversals t pass = .ok t) :
    passes.foldlM runOnTraversals t = .ok t := by
  induction passes with
  | nil => rfl
  | cons pass rest ih =>
    obtain ⟨hpass, hrest⟩ := forall_mem_cons.1 h
    rw [foldlM_cons, hpass]
    exact ih hrest

/-- Only two passes are left with work after the first round. -/
lemma round_of_ready (hname : name ≠ .empty) (h : Ready name t) :
    Yields ((ofName name).round t) fun t' => t' = tidied t := by
  obtain ⟨others, hothers, hstepwise⟩ := exists_onTraversals_eq hname
  have hready := h.trimmed (trimmed_tidied t)
  have hidentity : mapBottomUp dropIdentity t = t :=
    isStepwise_dropIdentity.mapBottomUp_eq_self
      (h.atRest .identitySteps (mem_onTraversals_of_mem_tidying hname (.head _)) _ rfl
      isStepwise_dropIdentity)
  have hfirst : tidying.foldlM runOnTraversals t = .ok (tidied t) := by
    change Except.ok (tidied (mapBottomUp dropIdentity t)) = _
    rw [hidentity]
  have hrest : others.foldlM runOnTraversals (tidied t) = .ok (tidied t) := by
    refine foldlM_eq_self fun pass hpass => ?_
    obtain ⟨f, haction, hf⟩ := hstepwise pass hpass
    have hatRest := hready.atRest pass (hothers ▸ mem_append_right _ hpass) f haction hf
    rw [runOnTraversals, haction]
    exact congrArg Except.ok (hf.mapBottomUp_eq_self hatRest)
  have hall : (ofName name).onTraversals.foldlM runOnTraversals t = .ok (tidied t) := by
    rw [hothers, foldlM_append, hfirst]
    exact hrest
  rw [round, hall]
  refine (foldlM_onProgram hname (tidied t)).mono ?_
  rintro _ rfl
  exact hready.labelled.dropUnusedLabels_eq_self

/-! ## The number of rounds -/

lemma rounds_succ {P : Traversal → Prop} (hround : Yields ((ofName name).round t) P)
    (h : ∀ t', P t' → Yields ((ofName name).rounds n t') fun settled => settled.isSome = true) :
    Yields ((ofName name).rounds (n + 1) t) fun settled => settled.isSome = true :=
  hround.bind fun t' ht' => .ite (fun _ => .pure rfl) fun _ => h t' ht'

lemma rounds_of_fixed (hround : Yields ((ofName name).round t) fun t' => t' = t)
    (hsame : same t t = true) :
    Yields ((ofName name).rounds (n + 1) t) fun settled => settled.isSome = true := by
  refine hround.bind ?_
  rintro _ rfl
  exact .ite (fun _ => .pure rfl) fun hne => absurd hsame hne

lemma lasting_isFinite : Step.Lasting fun s => ∀ leaf ∈ s.leaves, leaf.IsFinite where
  inside s f h := by rwa [Step.leaves, Step.ownValues_mapInside, Step.ownPredicate?_mapInside]
  simple s x h _ hleaves leaf hleaf := h leaf (hleaves hleaf)

/-- Three rounds are enough for a program in which labels keep to their places and no float is
not-a-number. -/
theorem isSome_of_rounds (name : DialectName) (ht : Anchored t)
    (hfinite : ∀ s ∈ walk t, ∀ leaf ∈ s.leaves, leaf.IsFinite)
    (n : Nat) : Yields ((ofName name).rounds (n + 3) t) fun settled => settled.isSome = true := by
  by_cases hname : name = .empty
  · subst hname
    exact rounds_of_fixed (.pure rfl) (same_self hfinite)
  · refine rounds_succ (ready_of_round hname ht) fun t₁ ht₁ => ?_
    refine rounds_succ (round_of_ready hname ht₁.1) ?_
    rintro _ rfl
    have htrim := ht₁.2.trans (trimmed_tidied t₁)
    refine rounds_of_fixed ?_ (same_self (htrim.lasting ht _ lasting_isFinite hfinite))
    exact (round_of_ready hname (ht₁.1.trimmed (trimmed_tidied t₁))).mono fun _ h =>
      h.trans (tidied_tidied t₁)

/-! ## How rounds fail -/

lemma exists_mem_of_foldlM_eq_error {run : Traversal → Pass → Except QueryFault Traversal}
    (h : passes.foldlM run t = .error e) : ∃ pass ∈ passes, ∃ t', run t' pass = .error e := by
  induction passes generalizing t with
  | nil => cases h
  | cons pass rest ih =>
    rcases bind_eq_error.1 h with h | ⟨t', -, h⟩
    · exact ⟨pass, mem_cons_self, t, h⟩
    · obtain ⟨pass', hpass', hrun⟩ := ih h
      exact ⟨pass', mem_cons_of_mem _ hpass', hrun⟩

/-- No dialect refuses anything but custom symbols, and only one refuses them. -/
lemma error_of_round (h : (ofName name).round t = .error e) :
    name = .neptune ∧ ∃ names, e = .customSymbols names := by
  rcases bind_eq_error.1 h with h | ⟨_, -, h⟩
  · obtain ⟨pass, hpass, t', hrun⟩ := exists_mem_of_foldlM_eq_error h
    obtain ⟨f, -, haction⟩ := exists_isLocal hpass
    rw [runOnTraversals, haction] at hrun
    cases hrun
  · obtain ⟨pass, hpass, t', hrun⟩ := exists_mem_of_foldlM_eq_error h
    rcases eq_of_mem_onProgram hpass with rfl | rfl
    · cases hrun
    · refine ⟨?_, ?_⟩
      · revert hpass
        cases name <;> simp [ofName, gremlin, cosmosdb, empty, unusedLabels, customSymbols]
      · rcases bind_eq_error.1 hrun with hrefused | ⟨_, -, hdone⟩
        · revert hrefused
          fun_cases refuseCustomSymbols with
          | case1 =>
            intro hrefused
            cases hrefused
          | case2 =>
            intro hrefused
            exact ⟨customNames t', (Except.error.inj hrefused).symm⟩
        · cases hdone

lemma error_of_rounds (h : (ofName name).rounds n t = .error e) :
    name = .neptune ∧ ∃ names, e = .customSymbols names := by
  induction n generalizing t with
  | zero => cases h
  | succ n ih =>
    rcases bind_eq_error.1 h with h | ⟨t', -, h⟩
    · exact error_of_round h
    · split at h
      · cases h
      · exact ih h

/-- Where the rounds settle, a dialect can only refuse custom symbols, or find a label undefined at
the end. -/
lemma error_of_applyTo
    (hsettles : Yields ((ofName name).rounds maxRounds t) fun settled => settled.isSome = true)
    (h : (ofName name).applyTo t = .error e) :
    (∃ names, e = .customSymbols names) ∨ ∃ l, e = .undefinedLabel l := by
  rcases bind_eq_error.1 h with h | ⟨settled, hrounds, h⟩
  · exact .inl (error_of_rounds h).2
  · obtain ⟨t', rfl⟩ := Option.isSome_iff_exists.1 (hsettles settled hrounds)
    rcases bind_eq_error.1 h with hlabels | ⟨_, -, hdone⟩
    · exact .inr (exists_of_checkLabels_error hlabels)
    · cases hdone

end Dialect

end CypherGremlin
