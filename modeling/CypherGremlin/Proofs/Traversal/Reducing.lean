import CypherGremlin.Proofs.Statement.Scoped

/-!
# Reducing steps

A step such as `fold` or `sum` makes one traverser of all that arrive, and the new traverser has no
labels.  A label that was put before such a step cannot be read after it, although the check of
labels does not notice.

* `Traversal.ReadsLabel l t` says that a step of the traversal, at any depth, refers to a label that
  the traversal has not put itself.
* `Traversal.ReadsAcross l t` says that such a step comes after a reducing step of the traversal,
  and that the label has not been put in between.
* `Traversal.Settled t` says that this is so for no label.
* `Traversal.since t` is the labels that are left at the end of the traversal.

`readsAcross_append` takes a program apart where it was put together: what is read across the end of
its first part is read in the second, and is not among the labels that are left.
-/

namespace CypherGremlin

variable {a b t : Traversal} {l : Label} {s : Step}

open List Traversal

namespace Step

/-- The step makes one traverser of all that arrive. -/
def isReducing : Step → Bool
  | .fold | .group _ _ | .count .global | .sum | .mean | .min | .max | .cap _ => true
  | _ => false

/-- The step labels that a step refers to.  A bucket is none. -/
def reads : Step → List Label
  | .select labels => labels
  | .addE _ source target => [source, target]
  | .whereLabel _ (.token .delete) | .whereLabel _ (.token .detachDelete) => []
  | .whereLabel _ l => [l]
  | _ => []

lemma mem_references_of_mem_reads (h : l ∈ s.reads) : l ∈ s.references := by
  fun_cases reads s <;> simp_all [reads, references]

lemma reads_of_isBland (h : s.isBland = true) : s.reads = [] := by
  cases s <;> simp_all [isBland, reads]

end Step

namespace Traversal

/-! ## Reading a label -/

/-- The label is referred to in the traversal, at any depth, where the traversal has not put it. -/
inductive ReadsLabel (l : Label) : Traversal → Prop
  | here {s : Step} {rest : Traversal} : l ∈ s.reads → ReadsLabel l (s :: rest)
  | inside {s : Step} {rest c : Traversal} : c ∈ s.children → ReadsLabel l c →
    ReadsLabel l (s :: rest)
  | later {s : Step} {rest : Traversal} : s ≠ .as l → ReadsLabel l rest → ReadsLabel l (s :: rest)

lemma not_reads_nil : ¬ ReadsLabel l [] := by
  intro h
  cases h

lemma reads_cons : ReadsLabel l (s :: t) ↔
    l ∈ s.reads ∨ (∃ c ∈ s.children, ReadsLabel l c) ∨ s ≠ .as l ∧ ReadsLabel l t := by
  constructor
  · rintro (h | ⟨hc, h⟩ | ⟨hs, h⟩)
    · exact .inl h
    · exact .inr (.inl ⟨_, hc, h⟩)
    · exact .inr (.inr ⟨hs, h⟩)
  · rintro (h | ⟨c, hc, h⟩ | ⟨hs, h⟩)
    · exact .here h
    · exact .inside hc h
    · exact .later hs h

/-- What is read in a program is read in its first part, or in the second and not put in the first.
-/
lemma reads_append : ReadsLabel l (a ++ b) ↔ ReadsLabel l a ∨ l ∉ puts a ∧ ReadsLabel l b := by
  induction a with
  | nil => simp [not_reads_nil]
  | cons s rest ih =>
    rw [cons_append, reads_cons, reads_cons, ih, mem_puts, mem_puts, mem_cons, eq_comm, not_or,
      and_or_left, and_assoc, or_assoc, or_assoc]

/-- A traversal has nothing to do with labels if none of its steps has, and none of the traversals
inside them. -/
lemma isBland_cons : isBland (s :: t) = true ↔ s.isBland = true ∧
    (∀ c ∈ s.children, isBland c = true) ∧ isBland t = true := by
  simp only [isBland, all_eq_true, forall_mem_walk_cons]

lemma isBland_append : isBland (a ++ b) = true ↔ isBland a = true ∧ isBland b = true := by
  simp only [isBland, all_eq_true, walk_eq_flatMap, flatMap_append, forall_mem_append]

lemma isBland_of_mem (h : isBland t = true) (hs : s ∈ t) : s.isBland = true := by
  obtain ⟨a, b, rfl⟩ := append_of_mem hs
  exact (isBland_cons.1 (isBland_append.1 h).2).1

lemma not_reads_of_isBland (h : isBland t = true) : ¬ ReadsLabel l t := by
  induction t using inductChildren with
  | nil => exact not_reads_nil
  | cons s rest hchild hrest =>
    obtain ⟨hs, hinside, hafter⟩ := isBland_cons.1 h
    rw [reads_cons, Step.reads_of_isBland hs]
    rintro (hl | ⟨c, hc, hl⟩ | ⟨-, hl⟩)
    · simp at hl
    · exact hchild c hc (hinside c hc) hl
    · exact hrest hafter hl

end Traversal

/-- A traversal that refers to visible labels only reads no other. -/
theorem Scoped.mem_of_reads {first : Bool} {V : Set Label} (h : Scoped first V t)
    (hl : ReadsLabel l t) : l ∈ V := by
  induction h with
  | nil => exact absurd hl not_reads_nil
  | step _ references _ ih =>
    rcases reads_cons.1 hl with hl | ⟨c, hc, hl⟩ | ⟨-, hl⟩
    · exact references l (Step.mem_references_of_mem_reads hl)
    · exact ih c hc hl
    · exact absurd hl not_reads_nil
  | select visible =>
    rcases reads_cons.1 hl with hl | ⟨c, hc, -⟩ | ⟨-, hl⟩
    · rwa [mem_singleton.1 hl]
    · simp [Step.children] at hc
    · exact absurd hl not_reads_nil
  | append _ _ iha ihb =>
    rcases reads_append.1 hl with hl | ⟨hput, hl⟩
    · exact iha hl
    · exact (ihb hl).resolve_right hput
  | @row _ _ a s _ n _ ih =>
    rw [← singleton_append, ← append_assoc] at hl
    rcases reads_append.1 hl with hl | ⟨-, hl⟩
    · exact ih hl
    · simp [reads_cons, not_reads_nil, Step.reads, Step.children] at hl

namespace Traversal

/-! ## Reading across a reducing step -/

def HasReducing (t : Traversal) : Prop := ∃ s ∈ t, s.isReducing = true

/-- The label is read after a reducing step of the traversal, and has not been put in between. -/
def ReadsAcross (l : Label) (t : Traversal) : Prop :=
  ∃ before reducing after, t = before ++ reducing :: after ∧ reducing.isReducing = true ∧
    ReadsLabel l after

/-- No label is read across a reducing step of the traversal. -/
def Settled (t : Traversal) : Prop := ∀ l, ¬ ReadsAcross l t

/-- The labels that are left at the end: those that were put after the last reducing step. -/
def since (t : Traversal) : Set Label :=
  {l | ∃ before after, t = before ++ .as l :: after ∧ ∀ s ∈ after, s.isReducing = false}

lemma ReadsAcross.reduces (h : ReadsAcross l t) : HasReducing t := by
  obtain ⟨before, reducing, after, rfl, hred, -⟩ := h
  exact ⟨reducing, by simp, hred⟩

lemma not_readsAcross_nil : ¬ ReadsAcross l [] := by
  rintro ⟨before, reducing, after, h, -⟩
  simp at h

lemma readsAcross_cons : ReadsAcross l (s :: t) ↔ s.isReducing = true ∧ ReadsLabel l t ∨
    ReadsAcross l t := by
  constructor
  · rintro ⟨before, reducing, after, heq, hred, hl⟩
    rcases cons_eq_append_iff.1 heq with ⟨-, heq⟩ | ⟨before', -, rfl⟩
    · obtain ⟨rfl, rfl⟩ := List.cons.inj heq
      exact .inl ⟨hred, hl⟩
    · exact .inr ⟨before', reducing, after, rfl, hred, hl⟩
  · rintro (⟨hs, hl⟩ | ⟨before, reducing, after, rfl, hred, hl⟩)
    · exact ⟨[], s, t, rfl, hs, hl⟩
    · exact ⟨s :: before, reducing, after, rfl, hred, hl⟩

lemma settled_of_forall (h : ∀ s ∈ t, s.isReducing = false) : Settled t := by
  intro l hl
  obtain ⟨s, hs, hred⟩ := hl.reduces
  simp [h s hs] at hred

/-- A label that is left was put after every reducing step. -/
lemma mem_puts_of_mem_since {before after : Traversal} (hs : s.isReducing = true)
    (h : l ∈ since (before ++ s :: after)) : l ∈ puts after := by
  obtain ⟨x, y, heq, hy⟩ := h
  rcases append_eq_append_iff.1 heq with ⟨c, -, hc⟩ | ⟨c, -, hc⟩
  · rcases cons_eq_append_iff.1 hc with ⟨-, hc⟩ | ⟨c', -, rfl⟩
    · simp [← (List.cons.inj hc).1, Step.isReducing] at hs
    · simp [mem_puts]
  · -- The label would have been put before the step, which is then among those that follow.
    rcases cons_eq_append_iff.1 hc with ⟨-, hc⟩ | ⟨c', -, rfl⟩
    · simp [(List.cons.inj hc).1, Step.isReducing] at hs
    · simp [hy s (by simp)] at hs

/-- Steps of which none reduces leave what was left before, and what they put. -/
lemma since_append (hb : ∀ s ∈ b, s.isReducing = false) : since a ∪ puts b ⊆ since (a ++ b) := by
  rintro l (⟨x, y, rfl, hy⟩ | hl)
  · exact ⟨x, y ++ b, by simp, forall_mem_append.2 ⟨hy, hb⟩⟩
  · obtain ⟨x, y, rfl⟩ := append_of_mem hl
    exact ⟨a ++ x, y, by simp, fun s hs => hb s (by simp [hs])⟩

/-- What is read across a step of a program that was put together is read across a step of one of
its parts, or is read in the second part while it is not left at the end of the first. -/
lemma readsAcross_append (h : ReadsAcross l (a ++ b)) :
    ReadsAcross l a ∨ ReadsAcross l b ∨ HasReducing a ∧ l ∉ since a ∧ ReadsLabel l b := by
  obtain ⟨before, reducing, after, heq, hred, hl⟩ := h
  rcases append_eq_append_iff.1 heq with ⟨c, -, rfl⟩ | ⟨c, rfl, hc⟩
  · exact .inr (.inl ⟨c, reducing, after, rfl, hred, hl⟩)
  · rcases cons_eq_append_iff.1 hc with ⟨-, rfl⟩ | ⟨c', rfl, rfl⟩
    · exact .inr (.inl ⟨[], reducing, after, rfl, hred, hl⟩)
    · rcases reads_append.1 hl with hl | ⟨hput, hl⟩
      · exact .inl ⟨before, reducing, c', rfl, hred, hl⟩
      · refine .inr (.inr ⟨⟨reducing, by simp, hred⟩, fun hsince => hput ?_, hl⟩)
        exact mem_puts_of_mem_since hred hsince

lemma Settled.append (ha : Settled a) (hb : Settled b) (hreads : ∀ l, ¬ ReadsLabel l b) :
    Settled (a ++ b) := by
  intro l hl
  rcases readsAcross_append hl with hl | hl | ⟨-, -, hl⟩
  · exact ha l hl
  · exact hb l hl
  · exact hreads l hl

/-- Steps that have nothing to do with labels read none across anything. -/
lemma settled_of_isBland (h : isBland t = true) : Settled t := by
  rintro l ⟨before, reducing, after, rfl, -, hl⟩
  exact not_reads_of_isBland (isBland_cons.1 (isBland_append.1 h).2).2.2 hl

lemma Settled.append_bland (ha : Settled a) (hb : isBland b = true) : Settled (a ++ b) :=
  ha.append (settled_of_isBland hb) fun _ => not_reads_of_isBland hb

/-- One step reduces, and the steps after it have nothing to do with labels. -/
def Resets (t : Traversal) : Prop :=
  ∃ before reducing after, t = before ++ reducing :: after ∧ reducing.isReducing = true ∧
    (∀ s ∈ before, s.isReducing = false) ∧ isBland after = true

lemma Resets.append_bland (ha : Resets a) (hb : isBland b = true) : Resets (a ++ b) := by
  obtain ⟨before, reducing, after, rfl, hred, hbefore, hafter⟩ := ha
  exact ⟨before, reducing, after ++ b, by simp, hred, hbefore, isBland_append.2 ⟨hafter, hb⟩⟩

lemma Resets.settled (h : Resets t) : Settled t := by
  obtain ⟨before, reducing, after, rfl, -, hbefore, hafter⟩ := h
  intro l hl
  rcases readsAcross_append hl with hl | hl | ⟨⟨s, hs, hreduces⟩, -⟩
  · exact settled_of_forall hbefore l hl
  · rcases readsAcross_cons.1 hl with ⟨-, hl⟩ | hl
    · exact not_reads_of_isBland hafter hl
    · exact settled_of_isBland hafter l hl
  · simp [hbefore s hs] at hreduces

end Traversal

end CypherGremlin
