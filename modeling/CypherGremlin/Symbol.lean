/-!
# Custom predicates and functions

Cypher has string tests, type tests and conversions that Gremlin lacks.  A traversal refers to them
by symbols which an engine has to install before it runs a program.  A `Registry` lists what is
installed: code generation accepts only symbols of its registry.
-/

namespace CypherGremlin

/-- A test that an engine has to provide. -/
inductive CustomPredicate where
  | startsWith
  | endsWith
  | contains
  | isNode
  | isRelationship
  | isString
deriving DecidableEq, Repr

namespace CustomPredicate

/-- All tests, in the order in which a standard registry lists them. -/
def all : List CustomPredicate := [startsWith, endsWith, contains, isNode, isRelationship, isString]

def name : CustomPredicate → String
  | startsWith => "startsWith"
  | endsWith => "endsWith"
  | contains => "contains"
  | isNode => "isNode"
  | isRelationship => "isRelationship"
  | isString => "isString"

/-- The name with a capital letter. -/
def title : CustomPredicate → String
  | startsWith => "StartsWith"
  | endsWith => "EndsWith"
  | contains => "Contains"
  | isNode => "IsNode"
  | isRelationship => "IsRelationship"
  | isString => "IsString"

def symbol (p : CustomPredicate) : String := "cypher" ++ p.title

def ofName? (text : String) : Option CustomPredicate := all.find? fun p => p.name == text

/-- How many arguments the test takes. -/
def arity : CustomPredicate → Nat
  | startsWith | endsWith | contains => 1
  | isNode | isRelationship | isString => 0

def isNullSafe : CustomPredicate → Bool
  | startsWith | endsWith | contains | isNode | isRelationship | isString => true

/-- The test gives the same answer each time. -/
def isDeterministic : CustomPredicate → Bool
  | startsWith | endsWith | contains | isNode | isRelationship | isString => true

end CustomPredicate

inductive CustomFunction where
  | toString
  | toBoolean
  | toInteger
  | toFloat
  | length
  | size
  | properties
  | raise
deriving DecidableEq, Repr

inductive OutputKind where
  | boolean
  | string
  | integer
  | float
  | map
  | never
deriving DecidableEq, Repr

def OutputKind.title : OutputKind → String
  | boolean => "Boolean"
  | string => "String"
  | integer => "Integer"
  | float => "Float"
  | map => "Map"
  | never => "Never"

namespace CustomFunction

def all : List CustomFunction :=
  [toString, toBoolean, toInteger, toFloat, length, size, properties, raise]

def name : CustomFunction → String
  | toString => "toString"
  | toBoolean => "toBoolean"
  | toInteger => "toInteger"
  | toFloat => "toFloat"
  | length => "length"
  | size => "size"
  | properties => "properties"
  | raise => "raise"

/-- The name with a capital letter. -/
def title : CustomFunction → String
  | toString => "ToString"
  | toBoolean => "ToBoolean"
  | toInteger => "ToInteger"
  | toFloat => "ToFloat"
  | length => "Length"
  | size => "Size"
  | properties => "Properties"
  | raise => "Raise"

/-- The symbol that programs use.  The raising function is known to engines as an exception. -/
def symbol (f : CustomFunction) : String :=
  match f with
  | raise => "cypherException"
  | _ => "cypher" ++ f.title

/-- What kind of value the function gives; raising gives none. -/
def output : CustomFunction → OutputKind
  | toString => .string
  | toBoolean => .boolean
  | toInteger | length | size => .integer
  | toFloat => .float
  | properties => .map
  | raise => .never

/-- The function gives the same value each time. -/
def isDeterministic : CustomFunction → Bool
  | toString | toBoolean | toInteger | toFloat | length | size | properties | raise => true

def ofName? (text : String) : Option CustomFunction := all.find? fun f => f.name == text

/-- The function that a query calls by the given name, whatever the case of its ASCII letters.  A
query cannot call the raising function. -/
def ofCypherName? (text : String) : Option CustomFunction :=
  (all.filter (· != raise)).find? fun f => f.name.toLower == text.toLower

end CustomFunction

/-- The custom symbols that an engine has installed, in order and with repetitions kept. -/
structure Registry where
  predicates : List CustomPredicate
  functions : List CustomFunction
deriving DecidableEq, Repr

/-- What a name stands for in a registry. -/
inductive Resolved where
  | predicate (p : CustomPredicate)
  | function (f : CustomFunction)
deriving DecidableEq, Repr

namespace Registry

def standard : Registry := ⟨CustomPredicate.all, CustomFunction.all⟩

def symbols (registry : Registry) : List String :=
  registry.predicates.map (·.symbol) ++ registry.functions.map (·.symbol)

/-- The entry with the given name or symbol, a predicate before a function. -/
def resolve? (registry : Registry) (text : String) : Option Resolved :=
  match registry.predicates.find? fun p => p.name == text || p.symbol == text with
  | some p => some (.predicate p)
  | none =>
    (registry.functions.find? fun f => f.name == text || f.symbol == text).map .function

end Registry

end CypherGremlin
