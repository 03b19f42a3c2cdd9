import CypherGremlin.Number.Binary64

/-!
# JSON values

A JSON value as the rest of the library sees it.  A number is an integer when it is written without
fraction and exponent and fits in 64 bits, signed or unsigned; otherwise it is a double-precision
number.  The fields of an object keep their order.
-/

namespace CypherGremlin

inductive Json where
  | null
  | bool (b : Bool)
  | int (i : Int)
  | float (x : Binary64)
  | string (s : String)
  | array (items : List Json)
  | object (fields : List (String × Json))
deriving Inhabited

namespace Json

/-! ## Nesting -/

mutual

/-- How many arrays and objects are nested in each other, the value itself included. -/
def depth : Json → Nat
  | .array items => depthOfItems items + 1
  | .object fields => depthOfFields fields + 1
  | _ => 0

def depthOfItems : List Json → Nat
  | [] => 0
  | item :: rest => max item.depth (depthOfItems rest)

def depthOfFields : List (String × Json) → Nat
  | [] => 0
  | (_, value) :: rest => max value.depth (depthOfFields rest)

end

/-! ## Access -/

def field? (fields : List (String × Json)) (name : String) : Option Json :=
  (fields.find? fun entry => entry.1 == name).map (·.2)

end Json

end CypherGremlin
