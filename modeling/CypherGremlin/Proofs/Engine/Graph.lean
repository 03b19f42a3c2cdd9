import CypherGremlin.Proofs.Engine.Object
import CypherGremlin.Proofs.Table
import Mathlib.Data.List.Pairwise
import Mathlib.Data.List.Perm.Subperm

/-!
# Graphs

A property graph in memory.  Vertices and edges are numbered by one counter, so an identity is used
once only, and both are kept in the order of their identities.  The types carry what every operation
keeps:

* an `Element` has each property once;
* a `Store` lists its content by increasing identity;
* a `Graph` has no identity above its counter.

An edge whose end has been removed from the graph is an edge like any other; the removal of a vertex
takes the edges at it along.
-/

namespace CypherGremlin

/-! ## Elements -/

/-- A label and properties, each key once. -/
structure Element where
  label : String
  properties : Table String Obj
  nodup : (Table.keys properties).Nodup

/-- An edge: a label, properties and two ends. -/
structure Edge extends Element where
  source : Int64
  target : Int64

namespace Element

/-- An element without properties. -/
def bare (label : String) : Element := ⟨label, [], by simp⟩

/-- Gives a property a value. -/
def put (element : Element) (key : String) (value : Obj) : Element :=
  ⟨element.label, Table.put element.properties key value,
    Table.nodup_keys_put key value element.nodup⟩

/-- Takes a property away. -/
def erase (element : Element) (key : String) : Element :=
  ⟨element.label, element.properties.filter (·.1 != key),
    element.nodup.sublist (List.filter_sublist.map _)⟩

/-- The properties with one of the keys, or all of them if there is no key. -/
def select (element : Element) (keys : List String) : Table String Obj :=
  element.properties.filter fun property => keys.isEmpty || keys.contains property.1

lemma length_select_singleton_le (element : Element) (key : String) :
    (element.select [key]).length ≤ 1 := by
  have hnodup : ((element.select [key]).map Prod.fst).Nodup :=
    element.nodup.sublist (List.filter_sublist.map _)
  have hsub : (element.select [key]).map Prod.fst ⊆ [key] := by
    simp [select, List.subset_def]
  simpa using (List.subperm_of_subset hnodup hsub).length_le

end Element

/-! ## Stores -/

/-- Content by increasing identity. -/
structure Store (α : Type) where
  entries : List (Int64 × α)
  increasing : (entries.map Prod.fst).Pairwise (· < ·)

namespace Store

variable {α : Type}

/-- Nothing. -/
def empty : Store α := ⟨[], by simp⟩

/-- The content under an identity. -/
def get? (store : Store α) (id : Int64) : Option α := Table.get? store.entries id

/-- The content under each identity that passes a test. -/
def filter (store : Store α) (p : Int64 → α → Bool) : Store α :=
  ⟨store.entries.filter fun entry => p entry.1 entry.2,
    store.increasing.sublist (List.filter_sublist.map _)⟩

/-- Changes the content under an identity. -/
def modify (store : Store α) (id : Int64) (f : α → α) : Store α :=
  ⟨store.entries.map fun entry => if entry.1 = id then (entry.1, f entry.2) else entry, by
    have hids :
      (store.entries.map fun entry => if entry.1 = id then (entry.1, f entry.2) else entry).map
        Prod.fst = store.entries.map Prod.fst := by
      rw [List.map_map]
      refine List.map_congr_left fun entry _ => ?_
      by_cases h : entry.1 = id <;> simp [h]
    rw [hids]
    exact store.increasing⟩

/-- Adds content under an identity above all others. -/
def push (store : Store α) (id : Int64) (content : α) (h : ∀ entry ∈ store.entries, entry.1 < id) :
    Store α :=
  ⟨store.entries ++ [(id, content)], by
    rw [List.map_append, List.pairwise_append]
    refine ⟨store.increasing, by simp, ?_⟩
    intro a ha b hb
    obtain ⟨entry, hentry, rfl⟩ := List.mem_map.1 ha
    obtain rfl : b = id := by simpa using hb
    exact h entry hentry⟩

end Store

/-! ## Graphs -/

/-- Vertices and edges, and the identity that was given last. -/
structure Graph where
  vertices : Store Element
  edges : Store Edge
  lastId : Int64
  vertices_le : ∀ entry ∈ vertices.entries, entry.1 ≤ lastId
  edges_le : ∀ entry ∈ edges.entries, entry.1 ≤ lastId

/-- An identity up to a number lies below its successor, if there is one. -/
lemma Int64.lt_add_one_of_le {a b : Int64} (h : a ≤ b) (hb : b < Int64.maxValue) : a < b + 1 := by
  rw [Int64.lt_iff_toInt_lt] at hb ⊢
  rw [Int64.le_iff_toInt_le] at h
  have hmax : Int64.maxValue.toInt = 9223372036854775807 := by decide
  have hone : (1 : Int64).toInt = 1 := by decide
  have hlow := Int64.le_toInt b
  rw [Int64.toInt_add, hone, Int.bmod_eq_of_le (by omega) (by omega)]
  omega

namespace Graph

/-- The graph without vertices and edges. -/
def empty : Graph := ⟨.empty, .empty, 0, by simp [Store.empty], by simp [Store.empty]⟩

/-- Adds a vertex.  The result is its identity, unless no identity is left. -/
def addVertex? (g : Graph) (label : String) : Option (Int64 × Graph) :=
  if h : g.lastId < Int64.maxValue then
    let id := g.lastId + 1
    have hlt {a : Int64} (ha : a ≤ g.lastId) : a < id := Int64.lt_add_one_of_le ha h
    some (id,
      { vertices := g.vertices.push id (.bare label) fun entry he => hlt (g.vertices_le entry he)
        edges := g.edges
        lastId := id
        vertices_le := by
          intro entry he
          rcases List.mem_append.1 he with he | he
          · exact Int64.le_of_lt (hlt (g.vertices_le entry he))
          · obtain rfl := List.mem_singleton.1 he
            exact Int64.le_refl id
        edges_le := fun entry he => Int64.le_of_lt (hlt (g.edges_le entry he)) })
  else none

/-- Adds an edge.  The result is its identity, unless no identity is left. -/
def addEdge? (g : Graph) (label : String) (source target : Int64) : Option (Int64 × Graph) :=
  if h : g.lastId < Int64.maxValue then
    let id := g.lastId + 1
    have hlt {a : Int64} (ha : a ≤ g.lastId) : a < id := Int64.lt_add_one_of_le ha h
    some (id,
      { vertices := g.vertices
        edges := g.edges.push id { toElement := .bare label, source, target } fun entry he =>
          hlt (g.edges_le entry he)
        lastId := id
        vertices_le := fun entry he => Int64.le_of_lt (hlt (g.vertices_le entry he))
        edges_le := by
          intro entry he
          rcases List.mem_append.1 he with he | he
          · exact Int64.le_of_lt (hlt (g.edges_le entry he))
          · obtain rfl := List.mem_singleton.1 he
            exact Int64.le_refl id })
  else none

def element? (g : Graph) : Obj → Option Element
  | .vertex id => g.vertices.get? id
  | .edge id => (g.edges.get? id).map Edge.toElement
  | _ => none

/-- Changes the element of a handle, if it is there. -/
def modify (g : Graph) (obj : Obj) (f : Element → Element) : Graph :=
  match obj with
  | .vertex id =>
    { g with
      vertices := g.vertices.modify id f
      vertices_le := by
        intro entry he
        obtain ⟨before, hb, rfl⟩ := List.mem_map.1 he
        have hle := g.vertices_le before hb
        split <;> exact hle }
  | .edge id =>
    { g with
      edges := g.edges.modify id fun edge => { edge with toElement := f edge.toElement }
      edges_le := by
        intro entry he
        obtain ⟨before, hb, rfl⟩ := List.mem_map.1 he
        have hle := g.edges_le before hb
        split <;> exact hle }
  | _ => g

/-- Removes edges that do not pass a test. -/
def keepEdges (g : Graph) (p : Int64 → Edge → Bool) : Graph :=
  { g with
    edges := g.edges.filter p
    edges_le := fun entry he => g.edges_le entry (List.mem_filter.1 he).1 }

def removeVertex (g : Graph) (id : Int64) : Graph :=
  { g.keepEdges fun _ edge => edge.source != id && edge.target != id with
    vertices := g.vertices.filter fun other _ => other != id
    vertices_le := fun entry he => g.vertices_le entry (List.mem_filter.1 he).1 }

def removeEdge (g : Graph) (id : Int64) : Graph := g.keepEdges fun other _ => other != id

end Graph

end CypherGremlin
