import CypherGremlin.Row.Raw
import CypherGremlin.Token

/-!
# Values as engines return them

A query that returns a value lets the engine tag it, so that elements and paths can be told from
maps and lists when the row is read.  `ResultValue.encode` is the engine value of a value:

* null is its token, other scalars stay, and lists and maps are encoded item by item;
* a node is a map with the tag of elements, and each of its properties is in a list of its own;
* a relationship is a map with its tag and the identities of its ends;
* a path is the list of its elements, where the first node and the relationships have tags that name
  the path.

A value does not know under which names its paths were matched.  So the encoding takes the name of
the path at each place of the value, where a place is the list of positions that lead to it.

`ResultValue.isSound` says which values can be told apart: no string and no key of a map looks like
a token, a node has one label, and the relationships of a path join its nodes.
-/

namespace CypherGremlin

/-! ## Encoding -/

/-- An identity as an engine returns it. -/
def ElementId.encode : ElementId → Raw
  | int i => .int i
  | string s => .string s

namespace Raw

/-- The map of an element: identity, label and properties. -/
def elementMap (id : ElementId) (label : String) (properties : List (RawKey × Raw)) : Raw :=
  .map ((.id, id.encode) :: (.label, .string label) :: properties)

/-- The properties of a node, each in a list of its own. -/
def wrapped (properties : List (RawKey × Raw)) : List (RawKey × Raw) :=
  properties.map fun property => (property.1, .list [property.2])

def taggedNode (tag : Token) (content : Raw) : Raw := .map [(.name tag.encode, content)]

/-- A relationship under a tag, with the identities of its ends. -/
def taggedRelationship (tag : Token) (content : Raw) (source target : ElementId) : Raw :=
  .map [(.name tag.encode, content), (.name Token.inV.encode, target.encode),
    (.name Token.outV.encode, source.encode)]

/-- The elements of a path, nodes and relationships in turn. -/
def alternate : List Raw → List Raw → List Raw
  | [], _ => []
  | node :: nodes, [] => node :: alternate nodes []
  | node :: nodes, relationship :: relationships =>
    node :: relationship :: alternate nodes relationships

end Raw

namespace ResultValue

variable (names : List Nat → String)

def nodeTag (path : String) (position : Nat) : Token :=
  if position = 0 then .pathStart path else .element

/-- The tag of the relationship at a position of a path, counted from zero. -/
def edgeTag (path : String) (position : Nat) : Token :=
  .pathEdge (path ++ "." ++ toString (position + 1))

mutual

/-- The value at a place as an engine returns it. -/
def encode (place : List Nat) : ResultValue → Raw
  | .null => .string Token.null.encode
  | .bool b => .bool b
  | .int i => .int i
  | .float x => .float x
  | .string s => .string s
  | .list items => .list (encodeAll place 0 items)
  | .map entries => .map (encodeEntries place 0 entries)
  | .node n => encodeNode place .element n
  | .relationship r => encodeRelationship place .relationship r
  | .path p => encodePath place p

def encodeAll (place : List Nat) (position : Nat) : List ResultValue → List Raw
  | [] => []
  | v :: rest => v.encode (position :: place) :: encodeAll place (position + 1) rest

/-- The entries of a map, or properties, from a position on. -/
def encodeEntries (place : List Nat) (position : Nat) :
    List (String × ResultValue) → List (RawKey × Raw)
  | [] => []
  | (k, v) :: rest =>
    (.name k, v.encode (position :: place)) :: encodeEntries place (position + 1) rest

def encodeNode (place : List Nat) (tag : Token) : NodeOf ResultValue → Raw
  | ⟨id, labels, properties⟩ =>
    Raw.taggedNode tag
      (Raw.elementMap id (labels.headD "") (Raw.wrapped (encodeEntries place 0 properties)))

def encodeRelationship (place : List Nat) (tag : Token) : RelationshipOf ResultValue → Raw
  | ⟨id, type, startId, endId, properties⟩ =>
    Raw.taggedRelationship tag (Raw.elementMap id type (encodeEntries place 0 properties))
      startId endId

def encodeNodes (place : List Nat) (position : Nat) : List (NodeOf ResultValue) → List Raw
  | [] => []
  | n :: rest =>
    encodeNode (2 * position :: place) (nodeTag (names place) position) n :: encodeNodes place
      (position + 1) rest

def encodeRelationships (place : List Nat) (position : Nat) :
    List (RelationshipOf ResultValue) → List Raw
  | [] => []
  | r :: rest =>
    encodeRelationship ((2 * position + 1) :: place) (edgeTag (names place) position) r ::
      encodeRelationships place (position + 1) rest

def encodePath (place : List Nat) : PathOf ResultValue → Raw
  | ⟨nodes, relationships⟩ =>
    .list (Raw.alternate (encodeNodes place 0 nodes) (encodeRelationships place 0 relationships))

end

end ResultValue

/-! ## Soundness -/

/-- The text is not an encoded token. -/
def isOrdinary (text : String) : Bool := (Token.decode? text).isNone

/-- A string that is an identity is not an encoded token. -/
def ElementId.isSound : ElementId → Bool
  | int _ => true
  | string s => isOrdinary s

/-- The relationship leads from one node to the other, in either direction. -/
def RelationshipOf.connects {α : Type} (r : RelationshipOf α) (a b : NodeOf α) : Bool :=
  (r.startId == a.id && r.endId == b.id) || (r.startId == b.id && r.endId == a.id)

/-- There is one more node than relationships, and each relationship connects its neighbours. -/
def PathOf.isJoined {α : Type} : List (NodeOf α) → List (RelationshipOf α) → Bool
  | [_], [] => true
  | a :: b :: nodes, r :: relationships => r.connects a b && isJoined (b :: nodes) relationships
  | _, _ => false

namespace ResultValue

/-- Each key occurs once. -/
def keysDiffer (entries : List (String × ResultValue)) : Bool := decide (entries.map Prod.fst).Nodup

mutual

/-- The value can be read back from its encoding. -/
def isSound : ResultValue → Bool
  | .null | .bool _ | .int _ | .float _ => true
  | .string s => isOrdinary s
  | .list items => allSound items
  | .map entries => entries.all (isOrdinary ·.1) && entriesSound entries
  | .node n => nodeSound n
  | .relationship r => relationshipSound r
  | .path p => pathSound p

def allSound : List ResultValue → Bool
  | [] => true
  | v :: rest => v.isSound && allSound rest

def entriesSound : List (String × ResultValue) → Bool
  | [] => true
  | (_, v) :: rest => v.isSound && entriesSound rest

def nodeSound : NodeOf ResultValue → Bool
  | ⟨id, labels, properties⟩ =>
    id.isSound && labels.length == 1 && keysDiffer properties && entriesSound properties

/-- The relationship and its ends have sound identities, and its properties are sound. -/
def relationshipSound : RelationshipOf ResultValue → Bool
  | ⟨id, _, startId, endId, properties⟩ =>
    id.isSound && startId.isSound && endId.isSound && keysDiffer properties && entriesSound
      properties

def nodesSound : List (NodeOf ResultValue) → Bool
  | [] => true
  | n :: rest => nodeSound n && nodesSound rest

def relationshipsSound : List (RelationshipOf ResultValue) → Bool
  | [] => true
  | r :: rest => relationshipSound r && relationshipsSound rest

/-- The path has sound elements and holds together. -/
def pathSound : PathOf ResultValue → Bool
  | ⟨nodes, relationships⟩ =>
    nodesSound nodes && relationshipsSound relationships && PathOf.isJoined nodes relationships

end

end ResultValue

end CypherGremlin
