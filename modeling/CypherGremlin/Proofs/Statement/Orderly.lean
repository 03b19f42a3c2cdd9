import CypherGremlin.Proofs.Statement.Scoped.Expression

/-!
# Reducing steps in expressions

The value of a dynamic list or of a path ends in `fold`, and what an expression is made of may do
so.  Lowering puts further steps behind such a value, but these read no labels, with one exception.
A comparison of two expressions computes the right one, labels the result, computes the left one and
compares with the label.  If the left one reduces, the label is gone; if the right one does, so is
every variable that the left one reads.

* `Traversal.ComparesAcross l t` says that `t` is such a comparison and that `l` is such a label.
* `Traversal.Orderly t` says that, at every depth, no label is read across a reducing step except in
  this way.
* `Traversal.Neat t` says that moreover the traversal itself is no exception.

The value of an expression and an operand of a test are neat, and a filter is orderly
(`Expr.Lowers.meets`).
-/

namespace CypherGremlin

variable {a b t : Traversal} {s : Step}

open List Traversal

namespace Traversal

/-! ## Comparisons -/

/-- The traversal compares two operands, and the label is lost on the way: it is the one that the
right operand is kept under while the left one reduces, or the left one reads it after the right one
has reduced. -/
def ComparesAcross (l : Label) (t : Traversal) : Prop :=
  ∃ (left right : Traversal) (temporary : Label) (op : LabelComparison), IsOperand left ∧
    IsOperand right ∧ t = right ++ [.as temporary] ++ left ++ [.whereLabel op temporary] ∧
    (HasReducing left ∧ l = temporary ∨ HasReducing right ∧ ReadsLabel l left)

/-- At every depth, labels are read across a reducing step in comparisons only. -/
def Orderly (t : Traversal) : Prop := ∀ u ∈ nested t, ∀ l, ReadsAcross l u → ComparesAcross l u

end Traversal

/-- The step puts a label. -/
def Step.isPut : Step → Bool
  | .as _ => true
  | _ => false

lemma Step.isPut_of_isBland (h : s.isBland = true) : s.isPut = false := by
  cases s with
  | as l => simp [isBland] at h
  | _ => rfl

lemma Step.isPut_of_isReducing (h : s.isReducing = true) : s.isPut = false := by
  cases s with
  | as l => simp [isReducing] at h
  | _ => rfl

/-- The traversals inside the step are orderly. -/
def Step.Orderly (s : Step) : Prop := ∀ c ∈ s.children, Traversal.Orderly c

/-- The step does not reduce, and the traversals inside it are orderly. -/
def Step.Steady (s : Step) : Prop := s.isReducing = false ∧ s.Orderly

/-- The step is steady, and puts no label. -/
structure Step.Quiet (s : Step) : Prop where
  steady : s.Steady
  put : s.isPut = false

/-- The traversal is settled, and those inside its steps are orderly. -/
structure Traversal.Neat (t : Traversal) : Prop where
  settled : Settled t
  inside : ∀ s ∈ t, s.Orderly

namespace Traversal

lemma orderly_iff : Orderly t ↔ (∀ l, ReadsAcross l t → ComparesAcross l t) ∧ ∀ s ∈ t, s.Orderly :=
  forall_mem_nested_iff

lemma Neat.orderly (h : Neat t) : Orderly t :=
  orderly_iff.2 ⟨fun l hl => absurd hl (h.settled l), h.inside⟩

/-! ## Steps -/

lemma orderly_of_isBland (h : isBland t = true) : Orderly t := by
  have hinside : ∀ s ∈ t, s.Orderly := by
    induction t using inductChildren with
    | nil => simp
    | cons s rest hchild hrest =>
      obtain ⟨-, hblandChildren, hblandRest⟩ := isBland_cons.1 h
      refine forall_mem_cons.2 ⟨fun c hc => orderly_iff.2 ⟨fun l hl => ?_, ?_⟩, hrest hblandRest⟩
      · exact absurd hl (settled_of_isBland (hblandChildren c hc) l)
      · exact hchild c hc (hblandChildren c hc)
  exact orderly_iff.2 ⟨fun l hl => absurd hl (settled_of_isBland h l), hinside⟩

lemma neat_of_isBland (h : isBland t = true) : Neat t :=
  ⟨settled_of_isBland h, (orderly_iff.1 (orderly_of_isBland h)).2⟩

lemma neat_of_steady (h : ∀ s ∈ t, s.Steady) : Neat t :=
  ⟨settled_of_forall fun s hs => (h s hs).1, fun s hs => (h s hs).2⟩

lemma neat_of_quiet (h : ∀ s ∈ t, s.Quiet) : Neat t := neat_of_steady fun s hs => (h s hs).steady

/-- Steps behind a value that have nothing to do with labels. -/
lemma Neat.append_bland (ha : Neat a) (hb : isBland b = true) : Neat (a ++ b) :=
  ⟨ha.settled.append_bland hb, forall_mem_append.2 ⟨ha.inside, (neat_of_isBland hb).inside⟩⟩

end Traversal

namespace Step.Steady

lemma leaf (hred : s.isReducing = false) (hchild : s.children = []) : s.Steady :=
  ⟨hred, by simp [Step.Orderly, hchild]⟩

lemma bland (hred : s.isReducing = false) (h : Traversal.isBland [s] = true) : s.Steady :=
  ⟨hred, (neat_of_isBland h).inside s (by simp)⟩

lemma neat (h : s.Steady) : Neat [s] := neat_of_steady (forall_mem_singleton.2 h)

end Step.Steady

namespace Traversal

lemma neat_gather {branches : List Traversal} (h : ∀ t ∈ branches, Orderly t) :
    Neat [.union branches, .fold] := by
  have hunion : (Step.union branches).Steady := ⟨rfl, h⟩
  exact hunion.neat.append_bland rfl

/-- A comparison of two operands reads labels across a reducing step as described, and in no other
way. -/
lemma orderly_compare {left right : Traversal} (hleft : Neat left) (hright : Neat right)
    (holeft : IsOperand left) (horight : IsOperand right) (temporary : Label)
    (op : LabelComparison) :
    Orderly (right ++ [.as temporary] ++ left ++ [.whereLabel op temporary]) := by
  have hput : (Step.as temporary).Steady := .leaf rfl rfl
  have htest : (Step.whereLabel op temporary).Steady := .leaf rfl rfl
  have hlabelled : Neat (right ++ [.as temporary]) := by
    refine ⟨hright.settled.append hput.neat.settled fun l hl => ?_, ?_⟩
    · simp [reads_cons, not_reads_nil, Step.reads, Step.children] at hl
    · exact forall_mem_append.2 ⟨hright.inside, hput.neat.inside⟩
  refine orderly_iff.2 ⟨fun l hl => ⟨left, right, temporary, op, holeft, horight, rfl, ?_⟩, ?_⟩
  · rcases readsAcross_append hl with hl | hl | ⟨-, hsince, hl⟩
    · -- The label is read by the left operand, after the right one has reduced.
      rcases readsAcross_append hl with hl | hl | ⟨⟨s, hs, hred⟩, -, hl⟩
      · exact absurd hl (hlabelled.settled l)
      · exact absurd hl (hleft.settled l)
      · rcases mem_append.1 hs with hs | hs
        · exact .inr ⟨⟨s, hs, hred⟩, hl⟩
        · simp [mem_singleton.1 hs, Step.isReducing] at hred
    · exact absurd hl (htest.neat.settled l)
    · -- The label is the temporary one, and would be left if the left operand did not reduce.
      obtain rfl : l = temporary := by
        rcases reads_cons.1 hl with hl | ⟨c, hc, -⟩ | ⟨-, hl⟩
        · simpa [Step.references] using Step.mem_references_of_mem_reads hl
        · simp [Step.children] at hc
        · exact absurd hl not_reads_nil
      refine .inl ⟨?_, rfl⟩
      by_contra hnone
      have hsteady : ∀ s ∈ left, s.isReducing = false := fun s hs =>
        Bool.eq_false_iff.2 fun hred => hnone ⟨s, hs, hred⟩
      exact hsince (since_append hsteady (.inl ⟨right, [], rfl, by simp⟩))
  · refine forall_mem_append.2 ⟨forall_mem_append.2 ⟨hlabelled.inside, hleft.inside⟩, ?_⟩
    exact htest.neat.inside

end Traversal

/-! ## Goals -/

/-- What the traversal of an expression is like: a filter is orderly, and anything else is neat. -/
def Goal.Meets (goal : Goal) (t : Traversal) : Prop :=
  match goal with
  | .filter => Orderly t
  | _ => Neat t

namespace Step.Quiet

lemma leaf (hred : s.isReducing = false) (hchild : s.children = []) (hput : s.isPut = false) :
    s.Quiet :=
  ⟨.leaf hred hchild, hput⟩

lemma bland (hred : s.isReducing = false) (h : Traversal.isBland [s] = true) : s.Quiet :=
  ⟨.bland hred h, isPut_of_isBland (isBland_cons.1 h).1⟩

lemma select (labels : List Label) : (Step.select labels).Quiet := leaf rfl rfl rfl

lemma whereLabel (op : LabelComparison) (l : Label) : (Step.whereLabel op l).Quiet :=
  leaf rfl rfl rfl

/-- The steps of a pattern that is a test. -/
lemma of_isProbe (h : s.isProbe = true) : s.Quiet := by
  rw [Step.isProbe.eq_def] at h
  split at h
  case h_10 => cases h
  all_goals exact leaf rfl rfl rfl

lemma of_isReading (h : s.isReading = true) : s.Quiet := by
  rw [Step.isReading.eq_def] at h
  split at h
  case h_5 => exact of_isProbe h
  all_goals exact leaf rfl rfl rfl

lemma edgeStep (d : Direction) (types : List String) : (d.edgeStep types).Quiet :=
  of_isProbe (d.isProbe_edgeStep types)

lemma nodeStep (d : Direction) : d.nodeStep.Quiet := of_isProbe d.isProbe_nodeStep

end Step.Quiet

abbrev Traversal.AllQuiet (t : Traversal) : Prop := ∀ s ∈ t, s.Quiet

namespace Traversal.AllQuiet

lemma nil : AllQuiet [] := forall_mem_nil _

lemma append (ha : AllQuiet a) (hb : AllQuiet b) : AllQuiet (a ++ b) := forall_mem_append.2 ⟨ha, hb⟩

lemma bindingSelect (binding : Binding) (var : String) : AllQuiet (binding.select var) := by
  refine forall_mem_cons.2 ⟨.select _, ?_⟩
  split
  · exact forall_mem_singleton.2 (.leaf rfl rfl rfl)
  · exact nil

lemma of_isProbe (h : ∀ s ∈ a, s.isProbe = true) : AllQuiet a := fun s hs => .of_isProbe (h s hs)

end Traversal.AllQuiet

/-- Of what is put together from the traversals of expressions, only a comparison of two of them
reads labels across a reducing step. -/
theorem Composed.orderly {T : Sources} {scope : Scope} {loose : Bool}
    (h : Composed T scope loose t) : Orderly t ∧ (loose = false → Neat t) := by
  have hneat {t : Traversal} (ht : Neat t) {loose : Bool} : Orderly t ∧ (loose = false → Neat t) :=
    ⟨ht.orderly, fun _ => ht⟩
  induction h with
  | idle hidle => exact hneat (neat_of_isBland (isBland_of_isIdle hidle))
  | reads hreads | pattern _ hreads =>
    exact hneat (neat_of_quiet fun s hs => .of_isReading (hreads s hs).reading)
  | frame hframe _ _ ih =>
    have hsteady := (Step.traits_of_isFrame hframe).2.2
    exact hneat (Step.Steady.neat ⟨hsteady, fun c hc => (ih c hc).1⟩)
  | gather _ _ ih => exact hneat (neat_gather fun t ht => (ih t ht).1)
  | path _ _ hpicks =>
    refine hneat (neat_gather fun t ht => ?_)
    obtain ⟨element, -, tag, rfl, hidle, -⟩ := hpicks t ht
    exact ((Step.Quiet.select _).steady.neat.append_bland (isBland_of_isIdle hidle)).orderly
  | andThen _ hidle _ ih => exact hneat ((ih.2 rfl).append_bland (isBland_of_isIdle hidle))
  | loosen _ ih => exact ⟨ih.1, fun h => absurd h (by simp)⟩
  | compare op n _ _ hright hleft ihright ihleft =>
    exact ⟨orderly_compare (ihleft.2 rfl) (ihright.2 rfl) hleft hright _ _,
      fun h => absurd h (by simp)⟩

/-- The value of an expression and an operand are neat, and a filter is orderly. -/
theorem Expr.Lowers.meets {scope : Scope} {goal : Goal} {e : Expr} (h : e.Lowers scope goal t) :
    goal.Meets t := by
  have horderly := (h.composed e.within_any).orderly
  cases goal with
  | filter => exact horderly.1
  | value _ | operand => exact horderly.2 rfl

end CypherGremlin
