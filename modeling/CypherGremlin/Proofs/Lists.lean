import Mathlib.Data.List.Basic

/-!
# Functions that go through a list

A function on trees goes through the lists in them by a recursion of its own.  Where it treats one
item after the other, it is the map, or the flat map, of what it does to an item.
-/

namespace CypherGremlin

variable {α β : Type} {F : List α → List β}

lemma eq_map_of_cons {f : α → β} (hnil : F [] = []) (hcons : ∀ a as, F (a :: as) = f a :: F as)
    (as : List α) : F as = as.map f := by
  induction as with
  | nil => exact hnil
  | cons a rest ih => rw [hcons, ih, List.map_cons]

lemma eq_flatMap_of_cons {f : α → List β} (hnil : F [] = [])
    (hcons : ∀ a as, F (a :: as) = f a ++ F as) (as : List α) : F as = as.flatMap f := by
  induction as with
  | nil => exact hnil
  | cons a rest ih => rw [hcons, ih, List.flatMap_cons]

end CypherGremlin
