import CypherGremlin.Proofs.Engine.Arithmetic
import CypherGremlin.Query.Basic
import CypherGremlin.Row.Value
import CypherGremlin.Token

/-!
# Objects

What a traverser of an engine carries: a scalar, a list, a map, an entry of a map, a handle of a
vertex or an edge, or a property of an element.  A map can have any object as a key; the two keys
under which an element's map has its identity and its label are objects of their own.

Three relations on objects are in use, and they differ:

* `Obj.same` compares by structure, and numbers by value; repetitions are dropped and groups are
  formed by it;
* `Obj.looselyEqual` also holds of an integer and a floating-point number of the same value;
  predicates use it;
* `Obj.sortOrder` puts any two objects in an order, by `Obj.sortRank` if they are of different
  kinds.
-/

namespace CypherGremlin

/-- An object that a traverser carries. -/
inductive Obj where
  /-- The null of the host, which a parameter can bring along.  It is not the null of Cypher. -/
  | null
  | bool (b : Bool)
  | int (i : Int64)
  | float (x : Binary64)
  | string (s : String)
  | list (items : List Obj)
  | map (entries : List (Obj × Obj))
  | entry (key value : Obj)
  | idKey
  | labelKey
  | vertex (id : Int64)
  | edge (id : Int64)
  | property (owner : Obj) (key : String) (value : Obj)
deriving Inhabited

namespace Obj

def isElement : Obj → Bool
  | vertex _ | edge _ => true
  | _ => false

def cypherNull : Obj := .string Token.null.encode

/-- A count, cut off at the largest integer. -/
def ofNat (n : Nat) : Obj := .int (Int64.ofInt (min n Int64.maxValue.toInt))

mutual

/-- The object of a literal.  Its null is the null of the host. -/
def ofLiteral : Literal → Obj
  | .null => .null
  | .bool b => .bool b
  | .int i => .int i
  | .float x => .float x
  | .string s => .string s
  | .list items => .list (ofLiterals items)
  | .map entries => .map (ofLiteralEntries entries)

def ofLiterals : List Literal → List Obj
  | [] => []
  | l :: rest => ofLiteral l :: ofLiterals rest

/-- The entries of a map literal as objects. -/
def ofLiteralEntries : List (String × Literal) → List (Obj × Obj)
  | [] => []
  | (k, l) :: rest => (.string k, ofLiteral l) :: ofLiteralEntries rest

end

/-! ## Equality -/

mutual

/-- Equality by structure, with numbers compared by value. -/
def same : Obj → Obj → Bool
  | .null, .null => true
  | .bool a, .bool b => a == b
  | .int a, .int b => a == b
  | .float a, .float b => a.equal b
  | .string a, .string b => a == b
  | .list a, .list b => sameItems a b
  | .map a, .map b => sameEntries a b
  | .entry k a, .entry l b => k.same l && a.same b
  | .idKey, .idKey => true
  | .labelKey, .labelKey => true
  | .vertex a, .vertex b => a == b
  | .edge a, .edge b => a == b
  | .property o k a, .property p l b => o.same p && k == l && a.same b
  | _, _ => false

/-- Equality of the items of two lists. -/
def sameItems : List Obj → List Obj → Bool
  | [], [] => true
  | a :: as, b :: bs => a.same b && sameItems as bs
  | _, _ => false

/-- Equality of the entries of two maps, in order. -/
def sameEntries : List (Obj × Obj) → List (Obj × Obj) → Bool
  | [], [] => true
  | (k, a) :: as, (l, b) :: bs => k.same l && a.same b && sameEntries as bs
  | _, _ => false

end

/-- A number as a floating-point number. -/
def number? : Obj → Option Binary64
  | .int i => some (Binary64.ofInt i.toInt)
  | .float x => some x
  | _ => none

/-- Equality as predicates see it. -/
def looselyEqual (a b : Obj) : Bool :=
  match a, b with
  | .int x, .int y => x == y
  | _, _ =>
    match a.number?, b.number? with
    | some x, some y => x.equal y
    | _, _ => a.same b

/-! ## Orders -/

/-- The order as predicates see it.  Encoded tokens are comparable with nothing. -/
def compare? (a b : Obj) : Option Ordering :=
  match a, b with
  | .int x, .int y => some (compare x.toInt y.toInt)
  | .string x, .string y => if isReserved x || isReserved y then none else some (compare x y)
  | .bool x, .bool y => some (compare x y)
  | _, _ => do (← a.number?).compare? (← b.number?)

/-- The place of a kind of object in sorting. -/
def sortRank : Obj → Nat
  | .null => 0
  | .bool _ => 1
  | .int _ | .float _ => 2
  | .string _ => 3
  | .vertex _ => 4
  | .edge _ => 5
  | .list _ => 6
  | .map _ => 7
  | .entry _ _ | .idKey | .labelKey | .property _ _ _ => 8

/-- The order by which rows are sorted and extremes are found.  Tokens are texts like others. -/
def sortOrder (a b : Obj) : Ordering :=
  match a, b with
  | .int x, .int y => compare x.toInt y.toInt
  | .string x, .string y => compare x y
  | .bool x, .bool y => compare x y
  | .vertex x, .vertex y | .edge x, .edge y => compare x.toInt y.toInt
  | _, _ =>
    match a.number?, b.number? with
    | some x, some y => compare x.rank y.rank
    | _, _ => compare a.sortRank b.sortRank

/-! ## Diagnostics

An object that is the key of a map, and neither a text nor one of the two keys of elements, gets
into a row by the text of its diagnostic. -/

mutual

/-- An object in a diagnostic. -/
def describe : Obj → String
  | .null => "Null"
  | .bool b => describeCall "Bool" (if b then "true" else "false")
  | .int i => describeCall "Int" (toString i.toInt)
  | .float x => describeCall "Float" x.text
  | .string s => describeCall "Str" (escaped s)
  | .list items => describeCall "List" (describeList (describeAll items))
  | .map entries => describeCall "Map" (describeList (describeEntries entries))
  | .entry k v => describeCall "Entry" (separated ", " [k.describe, v.describe])
  | .idKey => describeCall "T" "Id"
  | .labelKey => describeCall "T" "Label"
  | .vertex id => describeCall "Vertex" (toString id.toInt)
  | .edge id => describeCall "Edge" (toString id.toInt)
  | .property owner key v =>
    describeRecord "Property" [("owner", owner.describe), ("key", escaped key),
      ("value", v.describe)]

/-- Some objects in a diagnostic. -/
def describeAll : List Obj → List String
  | [] => []
  | o :: rest => o.describe :: describeAll rest

/-- The entries of a map in a diagnostic. -/
def describeEntries : List (Obj × Obj) → List String
  | [] => []
  | (k, v) :: rest =>
    describeCall "" (separated ", " [k.describe, v.describe]) :: describeEntries rest

end

end Obj

end CypherGremlin
