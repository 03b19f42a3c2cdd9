import CypherGremlin.Row.Raw
import CypherGremlin.Token

/-!
# Tags

What a query hands back is tagged: an element is in a map, under a key that encodes a token.  `tag?`
finds out what the keys of a map say.  The values of the map are of any type; it is the keys that
count.
-/

namespace CypherGremlin

/-- What the keys of a map say, with the values in question. -/
inductive Tag (α : Type) where
  | element (content : α)
  | relationship (content target source : α)
  /-- An identity. -/
  | id (content : α)
  | pathStart (content : α)

structure Marks (α : Type) where
  element : Option α := none
  relationship : Option α := none
  id : Option α := none
  target : Option α := none
  source : Option α := none
  pathStart : Bool := false

variable {α : Type}

/-- Takes an entry of a map into account.  A later entry with the same mark counts. -/
def Marks.add (marks : Marks α) (entry : RawKey × α) : Except Misfit (Marks α) :=
  match entry.1 with
  | .name name =>
    match Token.decode? name with
    | some .element => .ok { marks with element := some entry.2 }
    | some .relationship | some (.pathEdge _) => .ok { marks with relationship := some entry.2 }
    | some .id => .ok { marks with id := some entry.2 }
    | some .inV => .ok { marks with target := some entry.2 }
    | some .outV => .ok { marks with source := some entry.2 }
    | some (.pathStart _) => .ok { marks with pathStart := true }
    | some _ => .error (.shape "projection tag" ("key " ++ escaped name))
    | none => .ok marks
  | .id | .label => .ok marks

/-- What the keys of a map say. -/
def tag? (entries : List (RawKey × α)) : Except Misfit (Option (Tag α)) := do
  let marks ← entries.foldlM Marks.add {}
  match marks.element, marks.relationship, marks.id with
  | some content, none, none => return some (.element content)
  | none, some content, none =>
    match marks.target, marks.source with
    | some target, some source => return some (.relationship content target source)
    | _, _ => throw (.shape "relationship endpoints" "missing inv/outv")
  | none, none, some content => return some (.id content)
  | none, none, none =>
    return if marks.pathStart then entries.head?.map fun entry => .pathStart entry.2 else none
  | _, _, _ => throw (.shape "single projection tag" "conflicting tags")

end CypherGremlin
