/-!
# Tables that keep their order

Variables in scope, the columns of a row, the properties of an element and the parameters of a query
are small tables whose order shows in answers.  A table is a list of entries.  Writing an entry
under a known key replaces its value where it stands; a new key goes to the end.
-/

namespace CypherGremlin

/-- A table: entries in the order in which their keys were first written. -/
abbrev Table (κ α : Type) := List (κ × α)

namespace Table

variable {κ α : Type} [BEq κ]

def get? (table : Table κ α) (key : κ) : Option α :=
  match table with
  | [] => none
  | (k, v) :: rest => if k == key then some v else get? rest key

def has (table : Table κ α) (key : κ) : Bool := (get? table key).isSome

/-- Writes an entry: in place under a known key, else at the end. -/
def put (table : Table κ α) (key : κ) (value : α) : Table κ α :=
  match table with
  | [] => [(key, value)]
  | (k, v) :: rest => if k == key then (k, value) :: rest else (k, v) :: put rest key value

def keys (table : Table κ α) : List κ := table.map (·.1)

def ofEntries (entries : List (κ × α)) : Table κ α :=
  entries.foldl (fun table entry => put table entry.1 entry.2) []

end Table

end CypherGremlin
