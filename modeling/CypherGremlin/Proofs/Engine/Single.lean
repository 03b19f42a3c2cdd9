import CypherGremlin.Proofs.Engine.Outcome
import CypherGremlin.Proofs.Engine.Step

/-!
# Single results

A child of `project`, `order` or `group` has to give one object for the traverser that it starts
from.  `GivesOne` says that a transform does, unless the engine stops, and `GivesAtMostOne` that it
gives no second object.  Operations that only carry a traverser on give one for one; the stream
after a `fold` has one traverser whatever came before; and a `coalesce` whose last child gives one
makes up for the children before it that give nothing.
-/

namespace CypherGremlin

open List Traversal

/-- Unless the engine stops, the transform gives exactly one traverser for the traverser. -/
def GivesOne (m : Transform) (t : Traverser) : Prop :=
  Ensures Always (m [t]) fun out => out.length = 1

/-- Unless the engine stops, the transform gives no more than one traverser for the traverser. -/
def GivesAtMostOne (m : Transform) (t : Traverser) : Prop :=
  Ensures Always (m [t]) fun out => out.length ≤ 1

/-! ## Operations -/

namespace Machine

variable {t : Traverser}

@[simp] lemma each_singleton (f : Traverser → Run (List Traverser)) (t : Traverser) :
    each f [t] = f t := by
  simp [each]

lemma givesOne_emitOne (f : World → Obj → Except Halt Obj) : GivesOne (emitOne f) t := by
  have hone :
    Ensures Always (Run.observe fun w => do return [← f w t.obj]) fun objs => objs.length = 1 := by
    refine .observe fun w objs hobjs => ?_
    obtain ⟨obj, _, heq⟩ := bind_eq_ok.1 hobjs
    obtain rfl := pure_eq_ok.1 heq
    rfl
  rw [GivesOne, emitOne, emit, each_singleton]
  exact hone.bind fun objs hobjs => .pure (by simpa using hobjs)

lemma givesOne_constant (v : Except Halt Obj) : GivesOne (constant v) t :=
  (Ensures.trivial _).bind fun _ _ => .pure rfl

lemma ensures_fold (ts : List Traverser) : Ensures Always (fold ts) fun out => out.length = 1 := by
  refine (Ensures.observe ?_).bind fun objs hobjs => .pure (by simpa using hobjs)
  rintro _ _ ⟨⟩
  rfl

lemma givesOne_project (entries : List (String × Transform)) : GivesOne (project entries) t := by
  rw [GivesOne, project, each_singleton]
  exact (Ensures.trivial _).bind fun _ _ => .pure rfl

/-- What a name stands for is at most one object, and a label is always something to stand for. -/
lemma givesAtMostOne_selectOne (key : String) : GivesAtMostOne (selectOne key) t := by
  rw [GivesAtMostOne, selectOne, each_singleton]
  exact (Ensures.trivial _).bind fun found _ => .pure (by cases found <;> simp)

lemma givesOne_selectOne {key : String} (h : (t.label? key).isSome) :
    GivesOne (selectOne key) t := by
  rw [GivesOne, selectOne, each_singleton]
  refine (Ensures.observe (P := fun found => found.isSome) ?_).bind fun found hfound => .pure ?_
  · rintro w _ ⟨⟩
    simp [Traverser.find?, h]
  · obtain ⟨obj, rfl⟩ := Option.isSome_iff_exists.1 hfound
    rfl

lemma givesAtMostOne_values (key : String) : GivesAtMostOne (values [key]) t := by
  have hone : Ensures Always (Run.observe fun w => do
      return ((← w.graph.element t.obj).select [key]).map Prod.snd) fun objs =>
        objs.length ≤ 1 := by
    refine .observe fun w objs hobjs => ?_
    obtain ⟨element, _, heq⟩ := bind_eq_ok.1 hobjs
    obtain rfl := pure_eq_ok.1 heq
    simpa using element.length_select_singleton_le key
  rw [GivesAtMostOne, values, emit, each_singleton]
  exact hone.bind fun objs hobjs => .pure (by simpa using hobjs)

lemma givesAtMostOne_is (test : Obj → Except Halt Bool) : GivesAtMostOne (is test) t := by
  rw [GivesAtMostOne, is, keep, keepBy, each_singleton]
  exact (Ensures.trivial _).bind fun kept _ => .pure (by cases kept <;> simp)

lemma ensures_branch {child : Transform} {P : Nat → Prop}
    (h : Ensures Always (child [t]) fun out => P out.length) :
    Ensures Always (branch child t) fun out => P out.length :=
  h.bind fun _ hout => .pure (by simpa using hout)

lemma givesOne_choose (condition : Traverser → Run Bool) {yes no : Transform}
    (hyes : GivesOne yes t) (hno : GivesOne no t) : GivesOne (choose condition yes no) t := by
  rw [GivesOne, choose, each_singleton]
  have hyes : Ensures Always (branch yes t) fun out => out.length = 1 :=
    ensures_branch (P := (· = 1)) hyes
  have hno : Ensures Always (branch no t) fun out => out.length = 1 :=
    ensures_branch (P := (· = 1)) hno
  exact (Ensures.trivial _).bind fun _ _ => .ite (fun _ => hyes) fun _ => hno

lemma givesOne_coalesce {children : List Transform} {last : Transform}
    (hchildren : ∀ child ∈ children, GivesAtMostOne child t) (hlast : GivesOne last t) :
    GivesOne (coalesce (children ++ [last])) t := by
  rw [GivesOne, coalesce, each_singleton]
  induction children with
  | nil =>
    refine (ensures_branch (P := (· = 1)) hlast).bind fun out hout =>
      .ite (fun hempty => ?_) fun _ => .pure hout
    simp [List.isEmpty_iff.1 hempty] at hout
  | cons child rest ih =>
    obtain ⟨hchild, hrest⟩ := forall_mem_cons.1 hchildren
    refine (ensures_branch (P := (· ≤ 1)) hchild).bind fun out hout =>
      .ite (fun _ => ih hrest) fun hempty => .pure ?_
    have hpos : 0 < out.length := length_pos_iff.2 fun hnil => hempty (List.isEmpty_iff.2 hnil)
    omega

end Machine

namespace GivesOne

variable {env : Env} {t : Traverser} {s : Step} {a b : Traversal}

lemma append (ha : GivesOne (run env a) t) (hb : ∀ t, GivesOne (run env b) t) :
    GivesOne (run env (a ++ b)) t := by
  rw [GivesOne, run_append]
  refine Ensures.bind ha fun out hout => ?_
  obtain ⟨o, rfl⟩ := length_eq_one_iff.1 hout
  exact hb o

lemma step (h : GivesOne (s.run env) t) : GivesOne (run env [s]) t := by
  rwa [run_singleton]

lemma fold (a : Traversal) : GivesOne (run env (a ++ [.fold])) t := by
  rw [GivesOne, run_append, run_singleton]
  exact (Ensures.trivial _).bind fun out _ => Machine.ensures_fold out

lemma append_is (h : GivesOne (run env a) t) (p : Predicate) :
    GivesAtMostOne (run env (a ++ [.is p])) t := by
  rw [GivesAtMostOne, run_append, run_singleton]
  refine Ensures.bind h fun out hout => ?_
  obtain ⟨o, rfl⟩ := length_eq_one_iff.1 hout
  exact Machine.givesAtMostOne_is _

end GivesOne

end CypherGremlin
