import CypherGremlin.Json.Basic
import CypherGremlin.Number.Layout
import CypherGremlin.Text.Basic

/-!
# Values that queries return

Scalars, lists, maps, nodes, relationships and paths.  Elements and paths take the type of their
properties as a parameter, and `ResultValue` is nested in them.
-/

namespace CypherGremlin

/-! ## Elements -/

inductive ElementId where
  | int (i : Int64)
  | string (s : String)
deriving DecidableEq

structure NodeOf (α : Type) where
  id : ElementId
  labels : List String
  properties : List (String × α)

structure RelationshipOf (α : Type) where
  id : ElementId
  type : String
  startId : ElementId
  endId : ElementId
  properties : List (String × α)

/-- A path: a node, and then a relationship and a node for each hop. -/
structure PathOf (α : Type) where
  nodes : List (NodeOf α)
  relationships : List (RelationshipOf α)

inductive ElementOf (α : Type) where
  | node (n : NodeOf α)
  | relationship (r : RelationshipOf α)

variable {α : Type}

/-- The number of relationships. -/
def PathOf.length (p : PathOf α) : Nat := p.relationships.length

def PathOf.isEmpty (p : PathOf α) : Bool := p.relationships.isEmpty

def PathOf.interleave : List (NodeOf α) → List (RelationshipOf α) → List (ElementOf α)
  | [], _ => []
  | n :: ns, [] => .node n :: interleave ns []
  | n :: ns, r :: rs => .relationship r :: .node n :: interleave ns rs

def PathOf.elements (p : PathOf α) : List (ElementOf α) :=
  match p.nodes with
  | [] => []
  | first :: rest => .node first :: PathOf.interleave rest p.relationships

/-! ## Values -/

inductive ResultValue where
  | null
  | bool (b : Bool)
  | int (i : Int64)
  | float (x : Binary64)
  | string (s : String)
  | list (items : List ResultValue)
  | map (entries : List (String × ResultValue))
  | node (n : NodeOf ResultValue)
  | relationship (r : RelationshipOf ResultValue)
  | path (p : PathOf ResultValue)
deriving Inhabited

abbrev ResultNode := NodeOf ResultValue

abbrev ResultRelationship := RelationshipOf ResultValue

abbrev ResultPath := PathOf ResultValue

def ElementId.toValue : ElementId → ResultValue
  | int i => .int i
  | string s => .string s

/-! ## JSON -/

def ElementId.toJson : ElementId → Json
  | int i => .int i.toInt
  | string s => .string s

namespace ResultValue

mutual

/-- A value as JSON.  Elements and paths are objects. -/
def toJson : ResultValue → Json
  | .null => .null
  | .bool b => .bool b
  | .int i => .int i.toInt
  | .float x => .float x
  | .string s => .string s
  | .list items => .array (toJsons items)
  | .map entries => .object (fieldsToJson entries)
  | .node n => nodeToJson n
  | .relationship r => relationshipToJson r
  | .path p => pathToJson p

def toJsons : List ResultValue → List Json
  | [] => []
  | v :: rest => v.toJson :: toJsons rest

def fieldsToJson : List (String × ResultValue) → List (String × Json)
  | [] => []
  | (k, v) :: rest => (k, v.toJson) :: fieldsToJson rest

def nodeToJson : NodeOf ResultValue → Json
  | ⟨id, labels, properties⟩ =>
    .object [("id", id.toJson), ("labels", .array (labels.map .string)),
      ("properties", .object (fieldsToJson properties))]

def nodesToJson : List (NodeOf ResultValue) → List Json
  | [] => []
  | n :: rest => nodeToJson n :: nodesToJson rest

def relationshipToJson : RelationshipOf ResultValue → Json
  | ⟨id, type, startId, endId, properties⟩ =>
    .object [("id", id.toJson), ("type", .string type), ("start_id", startId.toJson),
      ("end_id", endId.toJson), ("properties", .object (fieldsToJson properties))]

def relationshipsToJson : List (RelationshipOf ResultValue) → List Json
  | [] => []
  | r :: rest => relationshipToJson r :: relationshipsToJson rest

def pathToJson : PathOf ResultValue → Json
  | ⟨nodes, relationships⟩ =>
    .object [("nodes", .array (nodesToJson nodes)),
      ("relationships", .array (relationshipsToJson relationships))]

end

end ResultValue

/-! ## Diagnostics -/

/-- A constructor applied to what it holds. -/
def describeCall (name content : String) : String := name ++ "(" ++ content ++ ")"

def describeList (items : List String) : String := "[" ++ separated ", " items ++ "]"

def describeBraces (items : List String) : String := "\x7b" ++ separated ", " items ++ "\x7d"

def describeRecord (name : String) (fields : List (String × String)) : String :=
  name ++ " \x7b " ++ separated ", " (fields.map fun (field, content) => field ++ ": " ++
    content) ++ " \x7d"

/-- An identity in a diagnostic. -/
def ElementId.describe : ElementId → String
  | int i => describeCall "Int" (toString i.toInt)
  | string s => describeCall "String" (escaped s)

namespace ResultValue

mutual

def describe : ResultValue → String
  | .null => "Null"
  | .bool b => describeCall "Bool" (if b then "true" else "false")
  | .int i => describeCall "Int" (toString i.toInt)
  | .float x => describeCall "Float" x.text
  | .string s => describeCall "String" (escaped s)
  | .list items => describeCall "List" (describeList (describeAll items))
  | .map entries => describeCall "Map" (describeBraces (describeFields entries))
  | .node n => describeCall "Node" (describeNode n)
  | .relationship r => describeCall "Relationship" (describeRelationship r)
  | .path p => describeCall "Path" (describePath p)

/-- Some values in a diagnostic. -/
def describeAll : List ResultValue → List String
  | [] => []
  | v :: rest => v.describe :: describeAll rest

/-- The entries of a map, or properties, in a diagnostic. -/
def describeFields : List (String × ResultValue) → List String
  | [] => []
  | (k, v) :: rest => (escaped k ++ ": " ++ v.describe) :: describeFields rest

def describeNode : NodeOf ResultValue → String
  | ⟨id, labels, properties⟩ =>
    describeRecord "Node" [("id", id.describe), ("labels", describeList (labels.map escaped)),
      ("properties", describeBraces (describeFields properties))]

def describeNodes : List (NodeOf ResultValue) → List String
  | [] => []
  | n :: rest => describeNode n :: describeNodes rest

def describeRelationship : RelationshipOf ResultValue → String
  | ⟨id, type, startId, endId, properties⟩ =>
    describeRecord "Relationship" [("id", id.describe), ("rel_type", escaped type),
      ("start_id", startId.describe), ("end_id", endId.describe),
      ("properties", describeBraces (describeFields properties))]

def describeRelationships : List (RelationshipOf ResultValue) → List String
  | [] => []
  | r :: rest => describeRelationship r :: describeRelationships rest

def describePath : PathOf ResultValue → String
  | ⟨nodes, relationships⟩ =>
    describeRecord "Path" [("nodes", describeList (describeNodes nodes)),
      ("relationships", describeList (describeRelationships relationships))]

end

end ResultValue

end CypherGremlin
