import CypherGremlin.Proofs.Traversal.Nested

/-!
# Where labels are put and selected

Two passes of a dialect depend on each other: one drops a step that selects the label just put on an
element, the other drops labels that nothing selects.  In general each can make work for the other
again and again.  This does not happen where numbered labels keep to their places:

* the number of a row is put behind a step that gives maps, which are no elements;
* any other numbered label is selected by itself only at the beginning of a traversal, where nothing
  has just been put on anything.

`Traversal.Anchored` says that labels keep to their places in a program and in all traversals inside
it.
-/

namespace CypherGremlin

/-- The label is the number of a row, under which a map is kept. -/
def Label.isRow : Label → Bool
  | .token (.freshId _) => true
  | _ => false

namespace Step

/-- The step gives what a clause makes of its rows.  It is never dropped, and what it gives was not
just found in the graph. -/
def isSolid : Step → Bool
  | .project _ | .coalesce _ | .dedup | .order _ | .limit _ | .skip _ | .range _ _ => true
  | _ => false

/-- The step keeps to its place if it stands behind the given one, or at the beginning. -/
def StandsAfter (before : Option Step) : Step → Prop
  | .as l => l.isRow = true → ∃ s ∈ before, s.isSolid = true
  | .select [l] => l.isSynthetic = true → before = none ∨ l.isRow = true
  | _ => True

lemma isSolid_mapInside (f : Traversal → Traversal) (s : Step) :
    (s.mapInside f).isSolid = s.isSolid := by
  cases s <;> rfl

lemma StandsAfter.mapInside {before : Option Step} {s : Step} (h : s.StandsAfter before)
    (f : Traversal → Traversal) : (s.mapInside f).StandsAfter (before.map (Step.mapInside f)) := by
  cases s with
  | as l =>
    intro hl
    obtain ⟨x, hx, hsolid⟩ := h hl
    exact ⟨x.mapInside f, Option.mem_map_of_mem _ hx, (isSolid_mapInside f x).trans hsolid⟩
  | select labels =>
    obtain _ | ⟨l, _ | _⟩ := labels
    case cons.nil => exact fun hl => (h hl).imp_left fun hbefore => by rw [hbefore, Option.map_none]
    all_goals trivial
  | _ => trivial

/-- Behind a step that gives no maps nothing stands but what can stand anywhere. -/
lemma StandsAfter.anywhere {before s : Step} (h : s.StandsAfter (some before))
    (hbefore : before.isSolid = false) (place : Option Step) : s.StandsAfter place := by
  fun_cases StandsAfter place s <;> simp_all [StandsAfter]

/-- The step keeps to its place wherever it stands. -/
def isFree : Step → Bool
  | .as l => !l.isRow
  | .select [l] => !l.isSynthetic || l.isRow
  | _ => true

lemma standsAfter_of_isFree {s : Step} (h : s.isFree = true) (before : Option Step) :
    s.StandsAfter before := by
  fun_cases StandsAfter before s with
  | case1 l => simp_all [isFree]
  | case2 l =>
    intro hl
    exact .inr (by simpa [isFree, hl] using h)
  | case3 => trivial

end Step

namespace Traversal

/-- Labels keep to their places in a traversal behind the given step. -/
def AnchoredAfter (before : Option Step) : List Step → Prop
  | [] => True
  | s :: rest => s.StandsAfter before ∧ AnchoredAfter (some s) rest

/-- Labels keep to their places in a program and in all traversals inside it. -/
def Anchored (t : Traversal) : Prop := ∀ u ∈ nested t, AnchoredAfter none u

variable {before : Option Step} {a b t : Traversal}

lemma anchoredAfter_append :
    AnchoredAfter before (a ++ b) ↔ AnchoredAfter before a ∧ AnchoredAfter
    (a.getLast?.or before) b := by
  induction a generalizing before with
  | nil => simp [AnchoredAfter]
  | cons s rest ih =>
    have hlast : (s :: rest).getLast?.or before = rest.getLast?.or (some s) := by
      rw [List.getLast?_cons]
      cases rest.getLast? <;> rfl
    rw [List.cons_append, AnchoredAfter, AnchoredAfter, ih, hlast, and_assoc]

/-- A step that gives no maps can be dropped in front of a traversal. -/
lemma AnchoredAfter.anywhere {s : Step} (h : AnchoredAfter (some s) t) (hs : s.isSolid = false)
    (place : Option Step) : AnchoredAfter place t := by
  cases t with
  | nil => trivial
  | cons x rest => exact ⟨h.1.anywhere hs place, h.2⟩

lemma AnchoredAfter.mapInside (h : AnchoredAfter before t) (f : Traversal → Traversal) :
    AnchoredAfter (before.map (Step.mapInside f)) (mapInside f t) := by
  induction t generalizing before with
  | nil => trivial
  | cons s rest ih => exact ⟨h.1.mapInside f, ih h.2⟩

lemma anchoredAfter_of_isFree (h : ∀ s ∈ t, s.isFree = true) (before : Option Step) :
    AnchoredAfter before t := by
  induction t generalizing before with
  | nil => trivial
  | cons s rest ih =>
    obtain ⟨hs, hrest⟩ := List.forall_mem_cons.1 h
    exact ⟨Step.standsAfter_of_isFree hs before, ih hrest (some s)⟩

/-- Labels keep to their places where no step could fail to. -/
lemma anchored_of_isFree (h : (walk t).all Step.isFree = true) : Anchored t := by
  rw [List.all_eq_true] at h
  exact fun u hu => anchoredAfter_of_isFree (forall_mem_walk_iff_nested.1 h u hu) none

/-- One program after another, where the second can stand anywhere. -/
lemma Anchored.append (ha : Anchored a) (hb : (walk b).all Step.isFree = true) :
    Anchored (a ++ b) := by
  have hfree := forall_mem_walk_iff_nested.1 (List.all_eq_true.1 hb)
  obtain ⟨ha, hinside⟩ := forall_mem_nested_iff.1 ha
  obtain ⟨-, hinside'⟩ := forall_mem_nested_iff.1 (anchored_of_isFree hb)
  refine forall_mem_nested_iff.2 ⟨anchoredAfter_append.2 ⟨ha, ?_⟩,
    List.forall_mem_append.2 ⟨hinside, hinside'⟩⟩
  exact anchoredAfter_of_isFree (hfree b (mem_nested_self b)) _

end Traversal

end CypherGremlin
