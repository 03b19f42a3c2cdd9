import CypherGremlin.Row.Tag

/-!
# Reading engine values

What a value of an engine means depends on where it stands: the same map is a map of the query, the
content of a tagged node, or a part of a path.  A `Reading` has the meaning of one value in every
place where it can stand, each of them a value or a misfit.  `Raw.read` computes the reading of a
value from the readings of its parts.
-/

namespace CypherGremlin

/-! ## Readings -/

/-- The map of an element: identity, label and properties. -/
structure ElementMap where
  id : ElementId
  label : String
  properties : List (String × ResultValue)

inductive PathPart where
  | start (node : Except Misfit ResultNode)
  | node (node : Except Misfit ResultNode)
  | relationship (relationship : Except Misfit ResultRelationship)
  | other

structure Reading where
  value : Except Misfit ResultValue
  /-- As a property of a node, which an engine returns in a list of its own. -/
  property : Except Misfit ResultValue
  /-- As an identity. -/
  id : Except Misfit ElementId
  label : Except Misfit String
  node : Except Misfit ResultNode
  relationshipMap : Except Misfit ElementMap
  /-- As a part of a path.  It is a misfit if the value is not a map. -/
  part : Except Misfit PathPart
  /-- As the first item of a list: whether the list is a path. -/
  startsPath : Except Misfit Bool

namespace Reading

def plain (kind : String) (value : Except Misfit ResultValue) : Reading where
  value
  property := value
  id := .error (.shape "element id" kind)
  label := .error (.shape "label string" kind)
  node := .error (.shape "node value map" kind)
  relationshipMap := .error (.shape "relationship value map" kind)
  part := .error (.shape "path element map" kind)
  startsPath := .ok false

/-- The value of a string.  The tokens of null are null, and other tokens have no value. -/
def stringValue (s : String) : Except Misfit ResultValue :=
  match Token.decode? s with
  | none => .ok (.string s)
  | some .null | some .nonexistent => .ok .null
  | some _ => .error (.shape "value" ("token " ++ escaped s))

def ofInt (i : Int64) : Reading := { plain "integer" (.ok (.int i)) with id := .ok (.int i) }

/-- The reading of a string.  A token is no identity. -/
def ofString (s : String) : Reading :=
  { plain "string" (stringValue s) with
    id := if (Token.decode? s).isNone then .ok (.string s)
      else .error (.shape "element id" "string")
    label := .ok s }

def values (readings : List Reading) : Except Misfit (List ResultValue) := readings.mapM (·.value)

/-! ## Nodes and relationships -/

structure Found where
  id : Option ElementId := none
  label : Option String := none
  properties : List (String × ResultValue) := []

/-- Takes an entry of the map of an element into account. -/
def Found.add (property : Reading → Except Misfit ResultValue) (found : Found)
    (entry : RawKey × Reading) : Except Misfit Found :=
  match entry.1 with
  | .id => do return { found with id := some (← entry.2.id) }
  | .label => do return { found with label := some (← entry.2.label) }
  | .name name =>
    do return { found with properties := Table.put found.properties name (← property entry.2) }

def elementMap (property : Reading → Except Misfit ResultValue)
    (entries : List (RawKey × Reading)) : Except Misfit ElementMap := do
  let found ← entries.foldlM (Found.add property) {}
  match found.id, found.label with
  | some id, some label => return ⟨id, label, found.properties⟩
  | _, _ => throw (.shape "element map with T.id and T.label" "untagged map")

def relationship (content target source : Reading) : Except Misfit ResultRelationship := do
  let map ← content.relationshipMap
  let startId ← source.id
  let endId ← target.id
  return ⟨map.id, map.label, startId, endId, map.properties⟩

def properties (property : Reading → Except Misfit ResultValue)
    (entries : List (String × Reading)) : Except Misfit (List (String × ResultValue)) :=
  entries.mapM fun (key, reading) => do return (key, ← property reading)

def handleNode (id : ElementId) (label : String) (entries : List (String × Reading)) :
    Except Misfit ResultNode := do
  return ⟨id, [label], ← properties Reading.property entries⟩

def ofVertex (id : ElementId) (label : String) (entries : List (String × Reading)) : Reading :=
  let node := handleNode id label entries
  { plain "vertex" (node.map .node) with node }

def ofEdge (id : ElementId) (label : String) (source target : ElementId)
    (entries : List (String × Reading)) : Reading :=
  plain "edge" do
    return .relationship ⟨id, label, source, target, ← properties Reading.value entries⟩

/-! ## Maps -/

def plainEntries (entries : List (RawKey × Reading)) :
    Except Misfit (List (String × ResultValue)) :=
  entries.mapM fun (key, reading) =>
    match key with
    | .name name => do return (name, ← reading.value)
    | .id | .label => .error (.shape "projection tag" "untagged element map")

def mapValue (entries : List (RawKey × Reading)) : Option (Tag Reading) → Except Misfit ResultValue
  | some (.element content) => content.node.map .node
  | some (.relationship content target source) =>
    (relationship content target source).map .relationship
  | some (.id content) => content.id.map ElementId.toValue
  | some (.pathStart _) => .error (.shape "path list" "bare path start map")
  | none => (plainEntries entries).map .map

def mapPart : Option (Tag Reading) → PathPart
  | some (.pathStart content) => .start content.node
  | some (.element content) => .node content.node
  | some (.relationship content target source) => .relationship (relationship content target source)
  | some (.id _) | none => .other

/-- The keys say that the map is the first node of a path. -/
def isPathStart : Option (Tag Reading) → Bool
  | some (.pathStart _) => true
  | _ => false

def mapNode (entries : List (RawKey × Reading)) : Except Misfit ResultNode := do
  let map ← elementMap Reading.property entries
  return ⟨map.id, [map.label], map.properties⟩

def ofMap (entries : List (RawKey × Reading)) : Reading :=
  let tag := tag? entries
  { plain "map" (tag.bind (mapValue entries)) with
    node := mapNode entries
    relationshipMap := elementMap Reading.value entries
    part := tag.map mapPart
    startsPath := tag.map isPathStart }

/-! ## Paths and lists -/

structure FoundPath where
  nodes : List ResultNode := []
  relationships : List ResultRelationship := []

def FoundPath.addNode (node : ResultNode) (found : FoundPath) : FoundPath :=
  { found with nodes := node :: found.nodes }

def FoundPath.addRelationship (relationship : ResultRelationship) (found : FoundPath) : FoundPath :=
  { found with relationships := relationship :: found.relationships }

/-- Puts a part at a position in front of a path.  Nodes stand at even positions and relationships
at odd ones; the mark of the first node stands at the beginning only. -/
def addPart (position : Nat) (part : PathPart) : Except Misfit (FoundPath → FoundPath) :=
  match part with
  | .start node => if position = 0 then node.map FoundPath.addNode else .error (.broken position)
  | .node node => if position % 2 = 0 then node.map FoundPath.addNode else .error (.broken position)
  | .relationship r =>
    if position % 2 = 1 then r.map FoundPath.addRelationship else .error (.broken position)
  | .other => .error (.broken position)

def pathParts : Nat → List Reading → Except Misfit FoundPath
  | _, [] => .ok {}
  | position, reading :: rest => do
    let add ← addPart position (← reading.part)
    let found ← pathParts (position + 1) rest
    return add found

def joins (r : ResultRelationship) (a b : ResultNode) : Bool :=
  (r.startId == a.id && r.endId == b.id) || (r.startId == b.id && r.endId == a.id)

/-- The first relationship, counted from the given number on, that does not join its neighbours. -/
def firstGap? : Nat → List ResultNode → List ResultRelationship → Option Nat
  | n, a :: b :: nodes, r :: relationships =>
    if joins r a b then firstGap? (n + 1) (b :: nodes) relationships else some n
  | _, _, _ => none

/-- The path of a list whose first item is marked. -/
def path (readings : List Reading) : Except Misfit ResultPath := do
  let found ← pathParts 0 readings
  if found.nodes.length ≠ found.relationships.length + 1 then throw (.broken readings.length)
  match firstGap? 0 found.nodes found.relationships with
  | some n => throw (.broken (n * 2 + 1))
  | none => return ⟨found.nodes, found.relationships⟩

/-- The value of a list: a path if the first item says so. -/
def listValue (readings : List Reading) : Except Misfit ResultValue := do
  let isPath ← match readings with
    | [] => pure false
    | first :: _ => first.startsPath
  if isPath then return .path (← path readings)
  return .list (← values readings)

def ofList (readings : List Reading) : Reading :=
  let value := listValue readings
  { plain "list" value with
    property := match readings with
      | [only] => only.value
      | _ => value }

end Reading

/-! ## Reading -/

mutual

def Raw.read : Raw → Reading
  | .null => .plain "null" (.ok .null)
  | .bool b => .plain "boolean" (.ok (.bool b))
  | .int i => .ofInt i
  | .float x => .plain "float" (.ok (.float x))
  | .string s => .ofString s
  | .list items => .ofList (Raw.readAll items)
  | .map entries => .ofMap (Raw.readEntries entries)
  | .vertex id label properties => .ofVertex id label (Raw.readFields properties)
  | .edge id label source target properties =>
    .ofEdge id label source target (Raw.readFields properties)

/-- The readings of some values. -/
def Raw.readAll : List Raw → List Reading
  | [] => []
  | r :: rest => r.read :: Raw.readAll rest

def Raw.readEntries : List (RawKey × Raw) → List (RawKey × Reading)
  | [] => []
  | (k, r) :: rest => (k, r.read) :: Raw.readEntries rest

/-- The readings of properties. -/
def Raw.readFields : List (String × Raw) → List (String × Reading)
  | [] => []
  | (k, r) :: rest => (k, r.read) :: Raw.readFields rest

end

end CypherGremlin
