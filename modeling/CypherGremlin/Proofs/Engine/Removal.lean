import CypherGremlin.Proofs.Engine.Observation

/-!
# Removing elements

Elements are removed one after another, and the removal of a vertex takes the edges at it along.
`Graph.without` says at once what is left in the end: `Graph.foldl_remove` proves that any order of
the removals leads there.
-/

namespace CypherGremlin

variable {store : Store α} {xs : List Handle} {content : α}

/-! ## Handles -/

/-- A vertex or an edge, by its identity. -/
inductive Handle where
  | vertex (id : Int64)
  | edge (id : Int64)
deriving DecidableEq

namespace Handle

def obj : Handle → Obj
  | vertex id => .vertex id
  | edge id => .edge id

@[simp] lemma same_obj (x y : Handle) : x.obj.same y.obj = decide (x = y) := by
  cases x <;> cases y <;> simp [obj, Obj.same, Bool.beq_eq_decide_eq]

@[simp] lemma looselyEqual_obj (x y : Handle) : x.obj.looselyEqual y.obj = decide (x = y) := by
  rw [← same_obj]
  cases x <;> cases y <;> rfl

/-- An element has no entries. -/
@[simp] lemma get?_obj (x : Handle) (key : String) : x.obj.get? key = none := by
  cases x <;> rfl

lemma any_same_obj (xs : List Handle) (y : Handle) :
    (xs.map obj).any (·.same y.obj) = decide (y ∈ xs) := by
  induction xs with
  | nil => rfl
  | cons x rest ih => simp [ih, eq_comm, Bool.decide_or]

lemma any_looselyEqual_obj (xs : List Handle) (y : Handle) :
    (xs.map obj).any y.obj.looselyEqual = decide (y ∈ xs) := by
  induction xs with
  | nil => rfl
  | cons x rest ih => simp [ih, Bool.decide_or]

end Handle

/-! ## Graphs -/

namespace Store

variable {α : Type}

/-- What is listed under an identity is found under it. -/
lemma get?_of_mem {id : Int64} (h : (id, content) ∈ store.entries) : store.get? id = some content :=
  Table.get?_of_mem (store.increasing.imp fun hlt => Int64.ne_of_lt hlt) h

lemma mem_iff_get? {id : Int64} : (id, content) ∈ store.entries ↔ store.get? id = some content :=
  ⟨get?_of_mem, Table.mem_of_get?⟩

@[ext] lemma ext {a b : Store α} (h : a.entries = b.entries) : a = b := by
  cases a
  cases b
  congr

lemma filter_filter (store : Store α) (p q : Int64 → α → Bool) :
    (store.filter p).filter q = store.filter fun id content => q id content && p id content :=
  Store.ext (List.filter_filter)

end Store

namespace Graph

lemma ext {a b : Graph} (hvertices : a.vertices = b.vertices) (hedges : a.edges = b.edges)
    (hlast : a.lastId = b.lastId) : a = b := by
  cases a
  cases b
  congr

def remove (g : Graph) : Handle → Graph
  | .vertex id => g.removeVertex id
  | .edge id => g.removeEdge id

/-- The edge goes with the elements: it is one of them or has an end among them. -/
def goesWith (xs : List Handle) (id : Int64) (edge : Edge) : Bool :=
  decide (.edge id ∈ xs) || decide (.vertex edge.source ∈ xs) || decide (.vertex edge.target ∈ xs)

/-- The graph without some vertices, and without some elements and the edges that go with them. -/
def without (g : Graph) (vertices : List Int64) (xs : List Handle) : Graph where
  vertices := g.vertices.filter fun id _ => decide (id ∉ vertices) && decide (.vertex id ∉ xs)
  edges := g.edges.filter fun id edge => !goesWith xs id edge
  lastId := g.lastId
  vertices_le := fun entry he => g.vertices_le entry (List.mem_filter.1 he).1
  edges_le := fun entry he => g.edges_le entry (List.mem_filter.1 he).1

lemma remove_without (g : Graph) (x : Handle) (xs : List Handle) :
    (g.remove x).without [] xs = g.without [] (x :: xs) := by
  cases x with
  | vertex id =>
    refine ext ?_ ?_ rfl
    · simp only [remove, removeVertex, without, Store.filter_filter]
      congr 1
      funext other _
      by_cases h : other = id <;> simp [h]
    · simp only [remove, removeVertex, keepEdges, without, Store.filter_filter]
      congr 1
      funext other edge
      by_cases hs : edge.source = id <;> by_cases ht : edge.target = id <;> simp [goesWith, hs, ht]
  | edge id =>
    refine ext ?_ ?_ rfl
    · simp [remove, removeEdge, keepEdges, without]
    · simp only [remove, removeEdge, keepEdges, without, Store.filter_filter]
      congr 1
      funext other edge
      by_cases h : other = id <;> simp [goesWith, h]

/-- What is left if elements are removed one after another. -/
theorem foldl_remove (g : Graph) (xs : List Handle) : xs.foldl remove g = g.without [] xs := by
  induction xs generalizing g with
  | nil =>
    exact ext (Store.ext (by simp [without, Store.filter]))
      (Store.ext (by simp [without, goesWith, Store.filter])) rfl
  | cons x rest ih => rw [List.foldl_cons, ih, remove_without]

lemma get?_edges_without {g : Graph} {vertices : List Int64} {r : Int64} {edge : Edge} :
    (g.without vertices xs).edges.get? r = some edge ↔ g.edges.get? r = some edge ∧
      goesWith xs r edge = false := by
  rw [← Store.mem_iff_get?, ← Store.mem_iff_get?]
  simp [without, Store.filter]

lemma without_nil (g : Graph) : g.without [] [] = g := (foldl_remove g []).symm

lemma without_congr (g : Graph) (vertices : List Int64) {ys : List Handle}
    (h : ∀ x, x ∈ xs ↔ x ∈ ys) : g.without vertices xs = g.without vertices ys := by
  simp only [without, goesWith, h]

end Graph

namespace Machine

lemma update_removed (x : Handle) (w : World) :
    Run.update (removed x.obj) w = .ok ((), { w with graph := w.graph.remove x }) := by
  cases x <;> rfl

lemma drop_handles (t : Traverser) (xs : List Handle) (w : World) :
    drop (xs.map fun x => t.carry x.obj) w =
      .ok ([], { w with graph := xs.foldl Graph.remove w.graph }) := by
  let one (t : Traverser) : Run (List Traverser) := do
    Run.update (removed t.obj)
    return []
  have hall : (xs.map fun x => t.carry x.obj).mapM one w =
      .ok (xs.map fun _ => [], { w with graph := xs.foldl Graph.remove w.graph }) := by
    induction xs generalizing w with
    | nil => rfl
    | cons x rest ih =>
      have hone : one (t.carry x.obj) w = .ok ([], { w with graph := w.graph.remove x }) :=
        stateT_bind_eq (update_removed x w)
      rw [List.map_cons, List.mapM_cons, stateT_bind_eq hone, stateT_bind_eq (ih _)]
      rfl
  have hflat : (xs.map fun _ => ([] : List Traverser)).flatten = [] := by simp
  rw [drop, each, stateT_bind_eq hall, hflat]
  rfl

/-- The handles that are neither among the given ones nor repetitions are, as a set, the others. -/
lemma distinct_handles (t : Traverser) (seen xs : List Handle) :
    ∃ ys : List Handle, distinct (seen.map Handle.obj) (xs.map fun x => t.carry x.obj) =
      ys.map (fun x => t.carry x.obj) ∧ ∀ y, y ∈ ys ↔ y ∈ xs ∧ y ∉ seen := by
  induction xs generalizing seen with
  | nil => exact ⟨[], rfl, by simp⟩
  | cons x rest ih =>
    have hseen : (seen.map Handle.obj).any (·.same (t.carry x.obj).obj) = decide (x ∈ seen) :=
      Handle.any_same_obj seen x
    rw [List.map_cons, distinct, hseen]
    by_cases hx : x ∈ seen
    · obtain ⟨ys, hys, hmem⟩ := ih seen
      refine ⟨ys, by rw [if_pos (decide_eq_true hx), hys], fun y => ?_⟩
      rw [hmem, List.mem_cons]
      exact ⟨fun h => ⟨.inr h.1, h.2⟩, fun h => ⟨h.1.resolve_left fun heq => h.2 (heq ▸ hx), h.2⟩⟩
    · obtain ⟨ys, hys, hmem⟩ := ih (x :: seen)
      refine ⟨x :: ys, by rw [if_neg (by simpa using hx)]; exact congrArg _ hys, fun y => ?_⟩
      rw [List.mem_cons, hmem, List.mem_cons, List.mem_cons, not_or]
      by_cases hy : y = x
      · simp [hy, hx]
      · simp [hy]

end Machine

end CypherGremlin
