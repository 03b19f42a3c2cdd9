import CypherGremlin.Proofs.Engine.Congruence

/-!
# Traversals that only read

Few steps change the graph.  A traversal that has none of them, at any depth, leaves the graph as it
is (`Traversal.ReadOnly.graph_eq`); it can still fill buckets.  If it does not do this either, it
leaves the world as it is, which is to say that it keeps any invariant
(`Traversal.Inert.simulates`).
-/

namespace CypherGremlin

variable {I : World → Prop}

open List

/-- No step of the traversal, at any depth, changes the graph. -/
def Traversal.ReadOnly (t : Traversal) : Prop := ∀ s ∈ Traversal.walk t, s.changesGraph = false

/-- No step of the traversal, at any depth, changes the graph or fills a bucket. -/
def Traversal.Inert (t : Traversal) : Prop :=
  ∀ s ∈ Traversal.walk t, s.changesGraph = false ∧ s.fills = []

/-- The computation keeps the invariant. -/
def Upholds {α : Type} (I : World → Prop) (x : Run α) : Prop := Ensures I x fun _ => True

lemma Refines.upholds {α β : Type} {R : α → β → Prop} {x : Run α} {y : Run β}
    (h : Refines I R x y) : Upholds I x :=
  fun w hw a w' hx => ⟨(h w hw a w' hx).1, trivial⟩

/-- Any label may be read where nothing is known of labels. -/
lemma Step.respects_of_changesGraph {s : Step} (hs : s.changesGraph = false)
    (hfills : ∀ l ∈ s.fills, AllowsFill I l.encode) : s.Respects I fun _ => True where
  reads m _ := by cases m <;> exact trivial
  graph h := by simp [hs] at h
  fills := hfills

/-- A traversal that leaves the world as it is keeps any invariant. -/
lemma Traversal.Inert.simulates {t : Traversal} (h : t.Inert) (env : Env) (I : World → Prop) :
    Simulates I (fun _ => True) (run env t) (run env t) :=
  simulates_self fun s hs => Step.respects_of_changesGraph (h s hs).1 (by simp [(h s hs).2])

lemma Traversal.Inert.upholds {t : Traversal} (h : t.Inert) (env : Env) (I : World → Prop)
    (ts : List Traverser) : Upholds I (run env t ts) :=
  (h.simulates env I ts ts (.refl ts)).upholds

namespace Traversal.ReadOnly

variable {a b : Traversal}

lemma of_append (h : ReadOnly (a ++ b)) : ReadOnly a :=
  forall_mem_walk_of_subset (subset_append_left a b) h

theorem graph_eq (h : ReadOnly a) {env : Env} {ts out : List Traverser} {w w' : World}
    (hrun : run env a ts w = .ok (out, w')) : w'.graph = w.graph := by
  have hkept : Simulates (fun w' => w'.graph = w.graph) (fun _ => True) (run env a) (run env a) :=
    simulates_self fun s hs => Step.respects_of_changesGraph (h s hs) fun _ _ _ _ hgraph => hgraph
  exact (hkept ts ts (.refl ts) w rfl out w' hrun).1

end Traversal.ReadOnly

end CypherGremlin
