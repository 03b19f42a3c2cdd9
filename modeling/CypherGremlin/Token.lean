import CypherGremlin.Text.Basic

/-!
# Sentinel tokens and labels

Cypher has values and names that Gremlin lacks: null, the unnamed elements of a pattern, the markers
of a path, the buckets of a delete.  They travel through an engine as strings that begin with two
blanks.  No name or string of a query may begin so, which is why an encoded token is never mistaken
for one.

* `Token.encode` gives the string of a token, `Token.decode?` the token of a string.
* `Label` is what a step binds or refers to: a name of the query or a token.
-/

namespace CypherGremlin

/-- A sentinel. -/
inductive Token where
  | start
  | null
  /-- A slot that keeps the result of an optional match a map. -/
  | unused
  /-- The content of that slot when the match failed. -/
  | nonexistent
  | pathStart (path : String)
  | pathEdge (hop : String)
  | relationship
  | element
  | id
  | inV
  /-- The key of the node that a returned relationship comes from. -/
  | outV
  /-- A temporary. -/
  | generated (n : UInt32)
  /-- An element of a pattern that has no name. -/
  | unnamed (n : UInt32)
  /-- A map from which variables are bound anew. -/
  | freshId (n : UInt32)
  | delete
  /-- The bucket of relationships, and of nodes deleted together with theirs. -/
  | detachDelete
  | deleteOnce
deriving DecidableEq, Repr

/-- How every encoded token begins. -/
def reservedLead : String := "  "

/-- The text begins like an encoded token. -/
def isReserved (text : String) : Bool := beginsWith reservedLead text

namespace Token

/-! ## Encoding -/

/-- The part of an encoding that does not depend on the token's argument. -/
def stem : Token → String
  | start => "  cypher.start"
  | null => "  cypher.null"
  | unused => "  cypher.unused"
  | nonexistent => "  cypher.nonexistent"
  | pathStart _ => "  cypher.path.start."
  | pathEdge _ => "  cypher.path.edge."
  | relationship => "  cypher.relationship"
  | element => "  cypher.element"
  | id => "  cypher.id"
  | inV => "  cypher.inv"
  | outV => "  cypher.outv"
  | generated _ => "  GENERATED"
  | unnamed _ => "  UNNAMED"
  | freshId _ => "  FRESHID"
  | delete => "  cypher.delete"
  | detachDelete => "  cypher.delete.detach"
  | deleteOnce => "  cypher.delete.once"

/-- The part of an encoding that does. -/
def suffix : Token → String
  | pathStart name | pathEdge name => name
  | generated n | unnamed n | freshId n => String.ofList (Nat.toDigits 10 n.toNat)
  | _ => ""

def encode (token : Token) : String := token.stem ++ token.suffix

/-! ## Decoding -/

def constants : List Token :=
  [start, null, unused, nonexistent, relationship, element, id, inV, outV, delete, detachDelete,
    deleteOnce]

/-- A 32-bit counter: perhaps a plus sign, then digits, leading zeros allowed. -/
def counter? (text : String) : Option UInt32 :=
  let digits := match text.toList with
    | '+' :: rest => rest
    | cs => cs
  if digits.isEmpty || !digits.all Char.isDigit then none
  else
    let n : Nat := digits.foldl (fun n c => n * 10 + (c.toNat - '0'.toNat)) 0
    if n < UInt32.size then some n.toUInt32 else none

/-- The token that a string stands for.  Most strings stand for none. -/
def decode? (text : String) : Option Token :=
  if !isReserved text then none
  else
    constants.find? (fun token => token.encode == text) <|>
    (afterLead? (pathStart "").stem text).map pathStart <|>
    (afterLead? (pathEdge "").stem text).map pathEdge <|>
    ((afterLead? (generated 0).stem text).bind counter?).map generated <|>
    ((afterLead? (unnamed 0).stem text).bind counter?).map unnamed <|>
    ((afterLead? (freshId 0).stem text).bind counter?).map freshId

/-! ## Kinds and names -/

/-- The tokens that label the intermediate results of lowering. -/
def isSynthetic : Token → Bool
  | generated _ | unnamed _ | freshId _ => true
  | _ => false

def title : Token → String
  | start => "Start"
  | null => "Null"
  | unused => "Unused"
  | nonexistent => "Nonexistent"
  | pathStart _ => "PathStart"
  | pathEdge _ => "PathEdge"
  | relationship => "ProjectionRelationship"
  | element => "ProjectionElement"
  | id => "ProjectionId"
  | inV => "ProjectionInv"
  | outV => "ProjectionOutv"
  | generated _ => "Generated"
  | unnamed _ => "Unnamed"
  | freshId _ => "FreshId"
  | delete => "Delete"
  | detachDelete => "DetachDelete"
  | deleteOnce => "DeleteOnce"

/-- The token in a diagnostic: its name, with the argument in brackets. -/
def describe (token : Token) : String :=
  match token with
  | pathStart name | pathEdge name => token.title ++ "(" ++ escaped name ++ ")"
  | generated n | unnamed n | freshId n => token.title ++ "(" ++ toString n.toNat ++ ")"
  | _ => token.title

end Token

/-- What a step binds or refers to. -/
inductive Label where
  | named (name : String)
  | token (t : Token)
deriving DecidableEq, Repr

namespace Label

def encode : Label → String
  | named name => name
  | token t => t.encode

/-- A label that lowering introduced for an intermediate result. -/
def isSynthetic : Label → Bool
  | named _ => false
  | token t => t.isSynthetic

def describe : Label → String
  | named name => name
  | token t => t.describe

end Label

end CypherGremlin
