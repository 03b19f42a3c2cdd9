import CypherGremlin.Proofs.Lists
import CypherGremlin.Traversal.Walk

/-!
# Induction over traversals

A step holds traversals in several kinds of containers, but for most purposes it is enough to know
its `Step.children`.  This module states the functions of `Traversal.Walk` in terms of them:

* `Step.walk_eq` and `Step.children_mapInside` say what walking and mapping do with the children;
* `Traversal.inductChildren` is the induction that all later proofs use: a property of traversals
  holds if it holds of the empty one and is kept by a step whose children have it.

What holds of all steps at any depth is kept by a change of all traversals that keeps it on each of
them (`Traversal.forall_mem_walk_mapBottomUp`).

`Traversal.collect` gathers something from every step at any depth.  What a change of all traversals
does to it is `Traversal.collect_mapBottomUp`: any relation of lists that goes along with appending
can be carried from one traversal to the whole program.
-/

namespace CypherGremlin

variable {P : Traversal → Prop} {t : Traversal} {f : Traversal → Traversal}

open List Step Traversal

/-! ## Containers of traversals -/

namespace Traversal

lemma walkAll_eq (ts : List Traversal) : walkAll ts = ts.flatMap walk :=
  eq_flatMap_of_cons rfl (fun _ _ => rfl) ts

lemma walkEntries_eq (entries : List (Label × Traversal)) :
    walkEntries entries = (entries.map Prod.snd).flatMap walk :=
  (eq_flatMap_of_cons rfl (fun _ _ => rfl) entries).trans (flatMap_map ..).symm

lemma walkKeys_eq (keys : List (Traversal × SortOrder)) :
    walkKeys keys = (keys.map Prod.fst).flatMap walk :=
  (eq_flatMap_of_cons rfl (fun _ _ => rfl) keys).trans (flatMap_map ..).symm

variable (f : Traversal → Traversal)

lemma mapInsideAll_eq (ts : List Traversal) : mapInsideAll f ts = ts.map (mapBottomUp f) :=
  eq_map_of_cons rfl (fun _ _ => rfl) ts

lemma mapInsideEntries_eq (entries : List (Label × Traversal)) :
    mapInsideEntries f entries = entries.map fun entry => (entry.1, mapBottomUp f entry.2) :=
  eq_map_of_cons rfl (fun _ _ => rfl) entries

lemma mapInsideKeys_eq (keys : List (Traversal × SortOrder)) :
    mapInsideKeys f keys = keys.map fun key => (mapBottomUp f key.1, key.2) :=
  eq_map_of_cons rfl (fun _ _ => rfl) keys

end Traversal

/-! ## Steps by their children -/

lemma Step.walk_eq (s : Step) : s.walk = s :: s.children.flatMap Traversal.walk := by
  cases s with
  | choose c yes no => cases c <;> simp [Step.walk, Condition.walk, children]
  | _ => simp [Step.walk, children, walkAll_eq, walkEntries_eq, walkKeys_eq]

lemma Step.children_mapInside (f : Traversal → Traversal) (s : Step) :
    (s.mapInside f).children = s.children.map (mapBottomUp f) := by
  cases s with
  | choose c yes no => cases c <;> simp [Step.mapInside, Condition.mapInside, children, mapBottomUp]
  | _ =>
    simp [Step.mapInside, children, mapBottomUp, mapInsideAll_eq, mapInsideEntries_eq,
      mapInsideKeys_eq]

/-- The property is kept by a step whose children have it. -/
private def Traversal.Hereditary (P : Traversal → Prop) : Prop :=
  ∀ s rest, (∀ t ∈ s.children, P t) → P rest → P (s :: rest)

mutual

private theorem Step.children_hold (nil : P []) (cons : Hereditary P) :
    ∀ s : Step, ∀ t ∈ s.children, P t
  | .propertyFrom _ t | .filter t | .not t | .sideEffect t | .map t | .flatMap t => by
    simpa [children] using Traversal.holds nil cons t
  | .and ts | .or ts | .coalesce ts | .union ts => by
    simpa [children] using Traversal.all_hold nil cons ts
  | .choose (.predicate _) yes no => by
    simpa [children] using ⟨Traversal.holds nil cons yes, Traversal.holds nil cons no⟩
  | .choose (.traversal t) yes no => by
    simpa [children] using ⟨Traversal.holds nil cons t, Traversal.holds nil cons yes,
      Traversal.holds nil cons no⟩
  | .project entries => Traversal.entries_hold nil cons entries
  | .order keys => Traversal.keys_hold nil cons keys
  | .group k v => by
    simpa [children] using ⟨Traversal.holds nil cons k, Traversal.holds nil cons v⟩
  | .V | .E | .addV _ | .addE _ _ _ | .property _ _ | .drop | .outE _ | .inE _ | .bothE _
  | .inV | .outV
  | .otherV | .has _ _ | .hasLabel _ | .hasNot _ | .hasKey _ | .is _ | .whereLabel _ _ | .as _
  | .select _
  | .selectKey _ | .selectColumn _ | .constant _ | .inject _ | .id | .label | .values _
  | .valueMap _
  | .properties _ | .key | .value | .dedup | .count _ | .fold | .unfold | .sum | .mean | .min | .max
  | .aggregate _ | .cap _ | .limit _ | .skip _ | .range _ _ | .barrier | .apply _ | .identity => by
    simp [children]

private theorem Traversal.holds (nil : P []) (cons : Hereditary P) : ∀ t : List Step, P t
  | [] => nil
  | s :: rest => cons s rest (Step.children_hold nil cons s) (Traversal.holds nil cons rest)

private theorem Traversal.all_hold (nil : P []) (cons : Hereditary P) :
    ∀ ts : List (List Step), ∀ t ∈ ts, P t
  | [] => by simp
  | t :: rest => by
    simpa using ⟨Traversal.holds nil cons t, Traversal.all_hold nil cons rest⟩

private theorem Traversal.entries_hold (nil : P []) (cons : Hereditary P) :
    ∀ entries : List (Label × List Step), ∀ t ∈ entries.map Prod.snd, P t
  | [] => by simp
  | (_, t) :: rest =>
    forall_mem_cons.2 ⟨Traversal.holds nil cons t, Traversal.entries_hold nil cons rest⟩

private theorem Traversal.keys_hold (nil : P []) (cons : Hereditary P) :
    ∀ keys : List (List Step × SortOrder), ∀ t ∈ keys.map Prod.fst, P t
  | [] => by simp
  | (t, _) :: rest =>
    forall_mem_cons.2 ⟨Traversal.holds nil cons t, Traversal.keys_hold nil cons rest⟩

end

/-- A property of traversals holds of all if it holds of the empty one and is kept by a step whose
children have it. -/
@[elab_as_elim]
theorem Traversal.inductChildren (t : Traversal) (nil : P [])
    (cons : ∀ s rest, (∀ t ∈ s.children, P t) → P rest → P (s :: rest)) : P t :=
  Traversal.holds nil cons t

/-- A step whose traversals stay as they are stays as it is. -/
lemma Step.mapInside_eq_self {s : Step} (h : ∀ t ∈ s.children, mapBottomUp f t = t) :
    s.mapInside f = s := by
  cases s with
  | choose c yes no =>
    cases c <;> simp_all [children, Step.mapInside, Condition.mapInside, mapBottomUp]
  | and ts | or ts | coalesce ts | union ts =>
    have hts : ts.map (mapBottomUp f) = ts := (map_congr_left h).trans (map_id ts)
    simp only [Step.mapInside, mapInsideAll_eq, hts]
  | project entries =>
    have hentries : entries.map (fun entry => (entry.1, mapBottomUp f entry.2)) = entries :=
      (map_congr_left fun entry hentry => congrArg (entry.1, ·) (h _ (mem_map_of_mem hentry))).trans
        (map_id entries)
    simp only [Step.mapInside, mapInsideEntries_eq, hentries]
  | order keys =>
    have hkeys : keys.map (fun key => (mapBottomUp f key.1, key.2)) = keys :=
      (map_congr_left fun key hkey => congrArg (·, key.2) (h _ (mem_map_of_mem hkey))).trans
        (map_id keys)
    simp only [Step.mapInside, mapInsideKeys_eq, hkeys]
  | _ => simp_all [children, Step.mapInside, mapBottomUp]

lemma Traversal.mapInside_id (t : Traversal) : mapInside (fun t => t) t = t := by
  induction t using inductChildren with
  | nil => rfl
  | cons s rest hchild hrest => rw [mapInside, mapInside_eq_self hchild, hrest]

/-! ## What holds of all steps -/

namespace Traversal

lemma walk_eq_flatMap (t : Traversal) : walk t = t.flatMap Step.walk :=
  eq_flatMap_of_cons rfl (fun _ _ => rfl) t

variable {P : Step → Prop}

lemma forall_mem_walk_iff :
    (∀ x ∈ walk t, P x) ↔ ∀ s ∈ t, P s ∧ ∀ t' ∈ s.children, ∀ x ∈ walk t', P x := by
  rw [walk_eq_flatMap, forall_mem_flatMap]
  refine forall₂_congr fun s _ => ?_
  rw [walk_eq, forall_mem_cons, forall_mem_flatMap]

lemma forall_mem_walk_cons {s : Step} {rest : Traversal} : (∀ x ∈ walk (s :: rest), P x) ↔
    P s ∧ (∀ t ∈ s.children, ∀ x ∈ walk t, P x) ∧ ∀ x ∈ walk rest, P x := by
  rw [walk, walk_eq, cons_append, forall_mem_cons, forall_mem_append, forall_mem_flatMap]

/-- What holds of all steps holds of them after some have been dropped. -/
lemma forall_mem_walk_of_subset {t' : Traversal} (hsub : t' ⊆ t) (h : ∀ s ∈ walk t, P s) :
    ∀ s ∈ walk t', P s := by
  rw [walk_eq_flatMap, forall_mem_flatMap] at h ⊢
  exact fun s hs => h s (hsub hs)

/-- A change of all traversals keeps what holds of all steps, if it does so on each traversal and
what is inside a step does not matter. -/
theorem forall_mem_walk_mapBottomUp (hinside : ∀ s : Step, P s → P (s.mapInside f))
    (hf : ∀ t, (∀ s ∈ walk t, P s) → ∀ s ∈ walk (f t), P s) (h : ∀ s ∈ walk t, P s) :
    ∀ s ∈ walk (mapBottomUp f t), P s := by
  refine hf _ ?_
  induction t using inductChildren with
  | nil => exact h
  | cons s rest hchild hrest =>
    obtain ⟨⟨hs, hall⟩, hafter⟩ := forall_mem_cons.1 (forall_mem_walk_iff.1 h)
    rw [forall_mem_walk_iff, mapInside, forall_mem_cons, children_mapInside, ← forall_mem_walk_iff]
    refine ⟨⟨hinside s hs, forall_mem_map.2 fun t ht => ?_⟩, hrest (forall_mem_walk_iff.2 hafter)⟩
    exact hf _ (hchild t ht (hall t ht))

/-- All steps of the traversal, at any depth, pass the test. -/
def AllSteps (p : Step → Bool) (t : Traversal) : Prop := ∀ s ∈ walk t, p s = true

section

variable {p q : Step → Bool} {s : Step} {rest a b : Traversal}

@[simp] lemma allSteps_nil : AllSteps p [] := by simp [AllSteps, walk]

lemma allSteps_cons : AllSteps p (s :: rest) ↔ p s = true ∧ (∀ t ∈ s.children, AllSteps p t) ∧
    AllSteps p rest :=
  forall_mem_walk_cons

@[simp] lemma allSteps_append : AllSteps p (a ++ b) ↔ AllSteps p a ∧ AllSteps p b := by
  simp only [AllSteps, walk_eq_flatMap, flatMap_append, forall_mem_append]

lemma allSteps_step (hs : p s = true) (h : ∀ t ∈ s.children, AllSteps p t) : AllSteps p [s] :=
  allSteps_cons.2 ⟨hs, h, allSteps_nil⟩

lemma allSteps_of_forall (h : ∀ s ∈ t, p s = true ∧ s.children = []) : AllSteps p t := by
  induction t with
  | nil => exact allSteps_nil
  | cons s rest ih =>
    obtain ⟨⟨hs, hchild⟩, hrest⟩ := forall_mem_cons.1 h
    exact allSteps_cons.2 ⟨hs, by simp [hchild], ih hrest⟩

lemma allSteps_leaf (hs : p s = true) (h : s.children = []) : AllSteps p [s] :=
  allSteps_of_forall (forall_mem_singleton.2 ⟨hs, h⟩)

lemma AllSteps.mono (h : AllSteps p t) (hpq : ∀ s, p s = true → q s = true) : AllSteps q t :=
  fun s hs => hpq s (h s hs)

end

end Traversal

/-! ## Collecting from all steps -/

namespace Traversal

variable {α : Type} (g : Step → List α)

/-- What every step gives, at any depth, in the order of `Traversal.walk`. -/
def collect (t : Traversal) : List α := (walk t).flatMap g

@[simp] lemma collect_nil : collect g [] = [] := rfl

lemma collect_cons (s : Step) (rest : Traversal) :
    collect g (s :: rest) = g s ++ (s.children.flatMap (collect g) ++ collect g rest) := by
  simp only [collect, walk, walk_eq, flatMap_append, flatMap_cons, flatMap_assoc, append_assoc]
  rfl

@[simp] lemma collect_append (a b : Traversal) :
    collect g (a ++ b) = collect g a ++ collect g b := by
  induction a with
  | nil => rfl
  | cons s rest ih => simp only [cons_append, collect_cons, ih, append_assoc]

/-- A relation of lists that goes along with appending. -/
structure Additive (R : List α → List α → Prop) : Prop where
  refl : ∀ a, R a a
  trans : ∀ {a b c}, R a b → R b c → R a c
  append : ∀ {a b c d}, R a b → R c d → R (a ++ c) (b ++ d)

section

variable {g} {R : List α → List α → Prop} {f : Traversal → Traversal}

/-- What is collected after all traversals inside have been changed is related to what was collected
before, if the change keeps up the relation on each traversal and the steps give the same. -/
theorem collect_mapInside (hR : Additive R) (hg : ∀ s : Step, g (s.mapInside f) = g s)
    (hf : ∀ t, R (collect g t) (collect g (f t))) (t : Traversal) :
    R (collect g t) (collect g (mapInside f t)) := by
  induction t using inductChildren with
  | nil => exact hR.refl _
  | cons s rest hchild hrest =>
    have hall : R (s.children.flatMap (collect g))
        ((s.children.map (mapBottomUp f)).flatMap (collect g)) := by
      revert hchild
      induction s.children with
      | nil => exact fun _ => hR.refl _
      | cons t ts ih =>
        intro hchild
        simp only [flatMap_cons, map_cons]
        exact hR.append (hR.trans (hchild t (by simp)) (hf _))
          (ih fun t' ht' => hchild t' (by simp [ht']))
    rw [mapInside, collect_cons, collect_cons, hg, children_mapInside]
    exact hR.append (hR.refl _) (hR.append hall hrest)

theorem collect_mapBottomUp (hR : Additive R) (hg : ∀ s : Step, g (s.mapInside f) = g s)
    (hf : ∀ t, R (collect g t) (collect g (f t))) (t : Traversal) :
    R (collect g t) (collect g (mapBottomUp f t)) :=
  hR.trans (collect_mapInside hR hg hf t) (hf _)

end

end Traversal

end CypherGremlin
