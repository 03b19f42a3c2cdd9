import CypherGremlin.Fault
import CypherGremlin.Row.Value
import CypherGremlin.Table

/-!
# Values that engines return

An engine knows no null of Cypher and no paths, but handles of nodes and relationships, and maps
with two special keys.
-/

namespace CypherGremlin

inductive RawKey where
  | id
  | label
  | name (s : String)
deriving DecidableEq, Repr

/-- A value that an engine returns. -/
inductive Raw where
  | null
  | bool (b : Bool)
  | int (i : Int64)
  | float (x : Binary64)
  | string (s : String)
  | list (items : List Raw)
  | map (entries : List (RawKey × Raw))
  | vertex (id : ElementId) (label : String) (properties : List (String × Raw))
  | edge (id : ElementId) (label : String) (source target : ElementId)
    (properties : List (String × Raw))
deriving Inhabited

/-- The name of a form of value. -/
def Raw.kind : Raw → String
  | null => "null"
  | bool _ => "boolean"
  | int _ => "integer"
  | float _ => "float"
  | string _ => "string"
  | list _ => "list"
  | map _ => "map"
  | vertex _ _ _ => "vertex"
  | edge _ _ _ _ _ => "edge"

/-- A row that an engine returns, by the names of the columns. -/
abbrev RawRow := Table String Raw

/-- Why a value is not what it should be, wherever it stands. -/
inductive Misfit where
  | shape (expected found : String)
  | broken (position : Nat)
deriving DecidableEq, Repr

def Misfit.inColumn (column : String) : Misfit → RowFault
  | shape expected found => .unexpectedShape column expected found
  | broken position => .brokenPath column position

end CypherGremlin
