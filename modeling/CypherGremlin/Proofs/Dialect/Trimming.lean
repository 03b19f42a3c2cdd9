import CypherGremlin.Proofs.Dialect.Progress
import CypherGremlin.Proofs.Dialect.Validity
import CypherGremlin.Proofs.Traversal.Anchored

/-!
# What passes keep

Where labels keep to their places, the steps that passes drop or replace refer to no numbered label,
so that

* labels still keep to their places afterwards,
* the program refers to the same numbered labels as before (`Trimmed.uses`), and
* what every step is like stays as it is, as long as it is true of simple steps (`Trimmed.lasting`).

The one pass that drops references is `Pass.dropReselect`.  It drops a reference to a label just put
on an element, and where labels keep to their places this is never a numbered one.
-/

namespace CypherGremlin

variable {s : Step} {t r : Traversal}

open List Traversal

/-! ## Simple steps -/

namespace Step

def numberedUses (s : Step) : List Label := (Pass.uses s).filter Label.isSynthetic

lemma numberedUses_of_isSimple (h : s.isSimple = true) : s.numberedUses = [] := by
  cases s <;> simp_all [isSimple, numberedUses, Pass.uses]

lemma standsAfter_of_isSimple (h : s.isSimple = true) (before : Option Step) :
    s.StandsAfter before := by
  cases s <;> simp_all [isSimple, StandsAfter]

lemma numberedUses_mapInside (f : Traversal → Traversal) (s : Step) :
    (s.mapInside f).numberedUses = s.numberedUses := by
  cases s <;> rfl

end Step

/-! ## Edits -/

namespace Pass

variable {spare : Label → Prop} {before after : List Step} {a b : Traversal}

namespace Edit

lemma isPlain (h : Edit spare before s r after) : s.isSolid = false ∧ s.children = [] := by
  cases h <;> exact ⟨rfl, rfl⟩

lemma leaves (h : Edit spare before s r after) : ∀ x ∈ r, x.leaves ⊆ s.leaves := by
  cases h <;> simp [Step.leaves, Step.ownValues, Step.ownPredicate?, operands_nativePredicate,
    Value.allLeaves]

/-- A label that has just been put on an element and can be selected here is not a numbered one. -/
lemma numberedUses (h : Edit spare before s r after) (hs : s.StandsAfter before.head?)
    (hbefore : AnchoredAfter none before.reverse) : s.numberedUses = [] := by
  cases h with
  | @reselect l e rest heq he =>
    subst heq
    have hl : l.isSynthetic = false := by
      by_contra hne
      have hrow : l.isRow = true := (hs (Bool.eq_true_of_not_eq_false hne)).resolve_left (by simp)
      rw [reverse_cons, reverse_cons, anchoredAfter_append] at hbefore
      obtain ⟨x, hx, hsolid⟩ := hbefore.2.1 hrow
      obtain rfl : e = x := by simpa using hx
      cases e <;> simp [givesElement, Step.isSolid] at he hsolid
    simp [Step.numberedUses, uses, hl]
  | _ => rfl

end Edit

namespace Edits

lemma anchoredAfter_append (hr : ∀ x ∈ r, x.isSimple = true) (ht : ∀ place, AnchoredAfter place t)
    (place : Option Step) : AnchoredAfter place (r ++ t) := by
  induction r generalizing place with
  | nil => exact ht place
  | cons x rest ih =>
    obtain ⟨hx, hrest⟩ := forall_mem_cons.1 hr
    exact ⟨Step.standsAfter_of_isSimple hx place, ih hrest (some x)⟩

lemma anchoredAfter (h : Edits spare before a b) {place : Option Step}
    (ha : AnchoredAfter place a) : AnchoredAfter place b := by
  induction h generalizing place with
  | nil => exact ha
  | keep s _ ih => exact ⟨ha.1, ih ha.2⟩
  | edit hedit _ ih =>
    exact anchoredAfter_append hedit.isSimple (fun _ => ih (ha.2.anywhere hedit.isPlain.1 _)) place

lemma collect_of_isSimple (hr : ∀ x ∈ r, x.isSimple = true) : collect Step.numberedUses r = [] := by
  induction r with
  | nil => rfl
  | cons x rest ih =>
    obtain ⟨hx, hrest⟩ := forall_mem_cons.1 hr
    rw [collect_cons, Step.numberedUses_of_isSimple hx, Step.children_of_isSimple hx, ih hrest]
    rfl

/-- Passes leave all references to numbered labels where they are. -/
lemma collect_eq (h : Edits spare before a b) (ha : AnchoredAfter before.head? a)
    (hbefore : AnchoredAfter none before.reverse) :
    collect Step.numberedUses b = collect Step.numberedUses a := by
  induction h with
  | nil => rfl
  | @keep before s _ _ _ ih =>
    have hnext : AnchoredAfter none (s :: before).reverse := by
      rw [reverse_cons, Traversal.anchoredAfter_append, getLast?_reverse, Option.or_none]
      exact ⟨hbefore, ha.1, trivial⟩
    rw [collect_cons, collect_cons, ih ha.2 hnext]
  | @edit before after _ _ _ _ hedit _ ih =>
    have hafter : AnchoredAfter none after.reverse := by
      cases hedit with
      | reselect => exact hbefore
      | _ => trivial
    rw [collect_append, collect_of_isSimple hedit.isSimple, collect_cons,
      hedit.numberedUses ha.1 hbefore, hedit.isPlain.2, ih (ha.2.anywhere hedit.isPlain.1 _) hafter]
    rfl

end Edits

end Pass

/-! ## Trimming a program -/

/-- What is true of a step stays true when something inside it changes, and goes over to simple
steps that take its place. -/
structure Step.Lasting (P : Step → Prop) : Prop where
  inside : ∀ s f, P s → P (s.mapInside f)
  simple : ∀ s x, P s → x.isSimple = true → x.leaves ⊆ s.leaves → P x

/-- What is left of a program in which labels keep to their places. -/
structure Trimmed (t t' : Traversal) : Prop where
  anchored : Anchored t → Anchored t'
  uses : Anchored t → collect Step.numberedUses t' = collect Step.numberedUses t
  lasting : Anchored t → ∀ P, Step.Lasting P → (∀ s ∈ walk t, P s) → ∀ s ∈ walk t', P s

namespace Trimmed

variable {t' t'' : Traversal} {f : Traversal → Traversal} {spare : Label → Prop}

lemma refl (t : Traversal) : Trimmed t t := ⟨fun h => h, fun _ => rfl, fun _ _ _ h => h⟩

lemma trans (h : Trimmed t t') (h' : Trimmed t' t'') : Trimmed t t'' where
  anchored ht := h'.anchored (h.anchored ht)
  uses ht := (h'.uses (h.anchored ht)).trans (h.uses ht)
  lasting ht P hP hall := h'.lasting (h.anchored ht) P hP (h.lasting ht P hP hall)

lemma collect_mapBottomUp (hf : ∀ u, Pass.Edits spare [] u (f u)) (ht : Anchored t) :
    collect Step.numberedUses (mapBottomUp f t) = collect Step.numberedUses t := by
  have hlast : ∀ {u : Traversal}, AnchoredAfter none u →
      collect Step.numberedUses (mapBottomUp f u) = collect Step.numberedUses (mapInside f u) :=
    fun hu => (hf _).collect_eq (hu.mapInside f) trivial
  obtain ⟨hself, hdeeper⟩ := forall_mem_nested_iff.1 ht
  rw [hlast hself]
  clear hself ht
  induction t using inductChildren with
  | nil => rfl
  | cons s rest hchild hrest =>
    obtain ⟨hs, hafter⟩ := forall_mem_cons.1 hdeeper
    have hinside : (s.children.map (mapBottomUp f)).flatMap (collect Step.numberedUses) =
        s.children.flatMap (collect Step.numberedUses) := by
      rw [flatMap_map]
      refine flatMap_congr fun c hc => ?_
      obtain ⟨hself, hc'⟩ := forall_mem_nested_iff.1 (hs c hc)
      exact (hlast hself).trans (hchild c hc hc')
    rw [mapInside, collect_cons, collect_cons, Step.numberedUses_mapInside, Step.children_mapInside,
      hinside, hrest hafter]

/-- A change of all traversals by edits. -/
theorem mapBottomUp (hf : ∀ u, Pass.Edits spare [] u (f u)) (t : Traversal) :
    Trimmed t (mapBottomUp f t) := by
  have hnested : ∀ {P : Step → Prop}, Step.Lasting P →
      (∀ u ∈ nested t, AnchoredAfter none u ∧ ∀ s ∈ u, P s) →
      ∀ u ∈ nested (Traversal.mapBottomUp f t), AnchoredAfter none u ∧ ∀ s ∈ u, P s := by
    intro P hP
    refine forall_mem_nested_mapBottomUp ?_ ?_ ?_
    · rintro u ⟨hu, hall⟩
      refine ⟨hu.mapInside f, ?_⟩
      rw [mapInside_eq_map]
      exact forall_mem_map.2 fun s hs => hP.inside s f (hall s hs)
    · rintro u ⟨hu, hall⟩
      refine ⟨(hf u).anchoredAfter hu, fun x hx => ?_⟩
      rcases (hf u).mem x hx with hx | ⟨s, hs, _, r, _, hedit, hx⟩
      · exact hall x hx
      · exact hP.simple s x (hall s hs) (hedit.isSimple x hx) (hedit.leaves x hx)
    · exact fun u _ => (hf u).mem_or_children
  refine ⟨fun ht => ?_, collect_mapBottomUp hf, fun ht P hP hall => ?_⟩
  · have htrue : Step.Lasting fun _ => True := ⟨fun _ _ _ => trivial, fun _ _ _ _ _ => trivial⟩
    exact fun u hu => (hnested htrue (fun u hu => ⟨ht u hu, fun _ _ => trivial⟩) u hu).1
  · have hsteps := forall_mem_walk_iff_nested.1 hall
    exact forall_mem_walk_iff_nested.2 fun u hu =>
      (hnested hP (fun u hu => ⟨ht u hu, hsteps u hu⟩) u hu).2

lemma dropUnusedLabels (t : Traversal) : Trimmed t (Pass.dropUnusedLabels t) :=
  mapBottomUp (Pass.edits_filter_putsUnused _) t

end Trimmed

end CypherGremlin
