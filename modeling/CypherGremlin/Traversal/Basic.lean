import CypherGremlin.Number.Binary64
import CypherGremlin.Symbol
import CypherGremlin.Token

/-!
# Traversals

A Gremlin traversal is a list of steps, and many steps hold further traversals.  This is the form
between a query and a program: lowering produces it, dialects adapt it, programs are written from
it.

The types are nested: a step holds traversals, lists of traversals, and lists of traversals with a
label or a sort order.  `Traversal.Walk` has the two functions through which the rest of the library
reaches them, one that lists every step and one that changes every traversal.
-/

namespace CypherGremlin

/-! ## Values and predicates -/

/-- A constant of a traversal.  There is no null among them; the null of Cypher is a token. -/
inductive Value where
  | bool (b : Bool)
  | int (i : Int64)
  | float (x : Binary64)
  | string (s : String)
  | list (items : List Value)
  | map (entries : List (String × Value))
  | token (t : Token)
  | parameter (name : String)
deriving Inhabited

def Value.null : Value := .token .null

inductive TextPredicate where
  | startingWith
  | endingWith
  | containing
deriving DecidableEq, Repr

/-- A test of the current object. -/
inductive Predicate where
  | eq (v : Value)
  | neq (v : Value)
  | lt (v : Value)
  | lte (v : Value)
  | gt (v : Value)
  | gte (v : Value)
  | within (vs : List Value)
  | without (vs : List Value)
  | custom (p : CustomPredicate) (argument : Option Value)
  | text (p : TextPredicate) (v : Value)

inductive LabelComparison where
  | eq
  | neq
  | without
  | lt
  | lte
  | gt
  | gte
deriving DecidableEq, Repr

/-- What a count counts: the traversers, or the members of the current object. -/
inductive CountScope where
  | global
  | local
deriving DecidableEq, Repr

inductive MapColumn where
  | keys
  | values
deriving DecidableEq, Repr

inductive SortOrder where
  | asc
  | desc
deriving DecidableEq, Repr

/-! ## Steps -/

mutual

inductive Step where
  /-- All nodes. -/
  | V
  /-- All relationships. -/
  | E
  | addV (label : Option String)
  /-- Adds a relationship between two labelled nodes. -/
  | addE (type : String) (source target : Label)
  | property (key : String) (value : Value)
  | propertyFrom (key : String) (value : List Step)
  /-- Removes the current element or property. -/
  | drop
  | outE (types : List String)
  | inE (types : List String)
  | bothE (types : List String)
  | inV
  | outV
  /-- The node at the other end of the current relationship. -/
  | otherV
  /-- Keeps elements with a property that passes a test. -/
  | has (key : String) (predicate : Predicate)
  | hasLabel (labels : List String)
  | hasNot (key : String)
  | hasKey (key : String)
  | is (predicate : Predicate)
  /-- Keeps objects from which a traversal emits something. -/
  | filter (condition : List Step)
  | whereLabel (comparison : LabelComparison) (label : Label)
  | and (branches : List (List Step))
  | or (branches : List (List Step))
  /-- Keeps objects from which a traversal emits nothing. -/
  | not (condition : List Step)
  | as (label : Label)
  | select (labels : List Label)
  | selectKey (key : Label)
  | selectColumn (column : MapColumn)
  | choose (condition : Condition) (yes no : List Step)
  | coalesce (branches : List (List Step))
  /-- All traversals one after another. -/
  | union (branches : List (List Step))
  | constant (value : Value)
  /-- Starts from constants. -/
  | inject (values : List Value)
  | id
  | label
  | values (keys : List String)
  /-- The current element as a map of its properties, with or without identity and label. -/
  | valueMap (tokens : Bool)
  | properties (keys : List String)
  | key
  | value
  /-- A map with an entry for each traversal. -/
  | project (entries : List (Label × List Step))
  | order (keys : List (List Step × SortOrder))
  | group (key value : List Step)
  /-- Drops repetitions. -/
  | dedup
  | count (scope : CountScope)
  /-- Gathers everything into one list. -/
  | fold
  /-- Spreads a collection. -/
  | unfold
  /-- Adds up. -/
  | sum
  | mean
  /-- The least. -/
  | min
  /-- The greatest. -/
  | max
  | aggregate (bucket : Label)
  | cap (bucket : Label)
  | limit (n : UInt64)
  /-- All but the first so many. -/
  | skip (n : UInt64)
  /-- From one position up to another. -/
  | range (low high : UInt64)
  /-- Waits until everything has arrived. -/
  | barrier
  | sideEffect (body : List Step)
  | map (body : List Step)
  /-- All results of a traversal. -/
  | flatMap (body : List Step)
  | apply (f : CustomFunction)
  /-- The current object itself. -/
  | identity

inductive Condition where
  /-- The current object passes a test. -/
  | predicate (p : Predicate)
  | traversal (t : List Step)

end

instance : Inhabited Step := ⟨.identity⟩

/-- A traversal: its steps in order. -/
abbrev Traversal := List Step

namespace Step

def name : Step → String
  | V => "V"
  | E => "E"
  | addV _ => "addV"
  | addE _ _ _ => "addE"
  | property _ _ | propertyFrom _ _ => "property"
  | drop => "drop"
  | outE _ => "outE"
  | inE _ => "inE"
  | bothE _ => "bothE"
  | inV => "inV"
  | outV => "outV"
  | otherV => "otherV"
  | has _ _ => "has"
  | hasLabel _ => "hasLabel"
  | hasNot _ => "hasNot"
  | hasKey _ => "hasKey"
  | is _ => "is"
  | filter _ | whereLabel _ _ => "where"
  | and _ => "and"
  | or _ => "or"
  | not _ => "not"
  | as _ => "as"
  | select _ | selectKey _ | selectColumn _ => "select"
  | choose _ _ _ => "choose"
  | coalesce _ => "coalesce"
  | union _ => "union"
  | constant _ => "constant"
  | inject _ => "inject"
  | id => "id"
  | label => "label"
  | values _ => "values"
  | valueMap _ => "valueMap"
  | properties _ => "properties"
  | key => "key"
  | value => "value"
  | project _ => "project"
  | order _ => "order"
  | group _ _ => "group"
  | dedup => "dedup"
  | count _ => "count"
  | fold => "fold"
  | unfold => "unfold"
  | sum => "sum"
  | mean => "mean"
  | min => "min"
  | max => "max"
  | aggregate _ => "aggregate"
  | cap _ => "cap"
  | limit _ => "limit"
  | skip _ => "skip"
  | range _ _ => "range"
  | barrier => "barrier"
  | sideEffect _ => "sideEffect"
  | map _ | apply _ => "map"
  | flatMap _ => "flatMap"
  | identity => "identity"

def isStart : Step → Bool
  | V | E | addV _ | inject _ => true
  | _ => false

end Step

end CypherGremlin
