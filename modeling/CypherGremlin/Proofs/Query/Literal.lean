import CypherGremlin.Query.Basic
import Mathlib.Tactic.Lemma

/-!
# Going through literals

Literals are nested in lists and in maps.  `Literal.inductItems` is induction over them where the
literals inside a list or a map are members of it, and `Literal.fold` goes through a literal from
the bottom up, where what becomes of a scalar, of a list and of a map is given.
-/

namespace CypherGremlin

open List

namespace Literal

/-! ## Induction -/

/-- What holds of scalars, and of lists and maps if it holds of what is inside them, holds of all
literals. -/
theorem inductItems {P : Literal → Prop} (l : Literal) (null : P .null) (bool : ∀ b, P (.bool b))
    (int : ∀ i, P (.int i)) (float : ∀ x, P (.float x)) (string : ∀ s, P (.string s))
    (list : ∀ items, (∀ l ∈ items, P l) → P (.list items))
    (map : ∀ entries, (∀ entry ∈ entries, P entry.2) → P (.map entries)) : P l :=
  @Literal.rec P (fun items => ∀ l ∈ items, P l) (fun entries => ∀ entry ∈ entries, P entry.2)
    (fun entry => P entry.2) null bool int float string list map
    (forall_mem_nil _) (fun _ _ hfirst hrest => forall_mem_cons.2 ⟨hfirst, hrest⟩)
    (forall_mem_nil _) (fun _ _ hfirst hrest => forall_mem_cons.2 ⟨hfirst, hrest⟩)
    (fun _ _ h => h) l

/-! ## Going through a literal -/

section

variable {α : Type} (scalar : Literal → α) (list : List α → α) (map : List (String × α) → α)

mutual

/-- Goes through a literal from the bottom up. -/
def fold : Literal → α
  | .list items => list (foldAll items)
  | .map entries => map (foldEntries entries)
  | l => scalar l

/-- Goes through some literals. -/
def foldAll : List Literal → List α
  | [] => []
  | l :: rest => fold l :: foldAll rest

/-- Goes through the entries of a map. -/
def foldEntries : List (String × Literal) → List (String × α)
  | [] => []
  | (key, l) :: rest => (key, fold l) :: foldEntries rest

end

lemma fold_list (items : List Literal) :
    fold scalar list map (.list items) = list (items.map (fold scalar list map)) := by
  rw [fold]
  congr 1
  induction items with
  | nil => rfl
  | cons l rest ih => rw [foldAll, map_cons, ih]

lemma fold_map (entries : List (String × Literal)) : fold scalar list map (.map entries) =
    map (entries.map fun entry => (entry.1, fold scalar list map entry.2)) := by
  rw [fold]
  congr 1
  induction entries with
  | nil => rfl
  | cons entry rest ih => rw [foldEntries, map_cons, ih]

end

section

variable {α : Type} (own : Literal → List α) (ofKey : String → List α)

/-- What scalars and the keys of maps give, at any depth. -/
def collect : Literal → List α :=
  fold own List.flatten fun entries => entries.flatMap fun entry => ofKey entry.1 ++ entry.2

variable {own ofKey} {p : α → Prop}

lemma forall_mem_collect_list {items : List Literal} :
    (∀ a ∈ (Literal.list items).collect own ofKey, p a) ↔
      ∀ l ∈ items, ∀ a ∈ l.collect own ofKey, p a := by
  simp only [collect, fold_list, forall_mem_flatten, forall_mem_map]

lemma forall_mem_collect_map {entries : List (String × Literal)} :
    (∀ a ∈ (Literal.map entries).collect own ofKey, p a) ↔
      ∀ entry ∈ entries, (∀ a ∈ ofKey entry.1, p a) ∧ ∀ a ∈ entry.2.collect own ofKey, p a := by
  simp only [collect, fold_map, flatMap_map, forall_mem_flatMap, forall_mem_append]

end

def ownTexts : Literal → List String
  | .string s => [s]
  | _ => []

/-- The texts in a literal, at any depth: strings and the keys of maps. -/
def texts : Literal → List String := collect ownTexts fun key => [key]

/-- The number of a scalar, if it is a float. -/
def ownFloats : Literal → List Binary64
  | .float x => [x]
  | _ => []

def floats : Literal → List Binary64 := collect ownFloats fun _ => []

end Literal

end CypherGremlin
