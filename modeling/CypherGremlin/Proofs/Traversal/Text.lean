import CypherGremlin.Program.Instruction
import CypherGremlin.Proofs.Token
import CypherGremlin.Proofs.Traversal.Walk

/-!
# Texts in a traversal

The texts that a query can bring into a traversal: strings, keys of maps and names of parameters in
constants, keys of properties, labels of nodes, types of relationships, and names of labels.  The
other things that a constant is made of are its `Value.leaves`.
-/

namespace CypherGremlin

mutual

/-- The strings, the keys of maps and the names of parameters in a constant. -/
def Value.texts : Value → List String
  | .string s => [s]
  | .list items => Value.allTexts items
  | .map entries => Value.entryTexts entries
  | .parameter name => [name]
  | .bool _ | .int _ | .float _ | .token _ => []

def Value.allTexts : List Value → List String
  | [] => []
  | v :: rest => v.texts ++ Value.allTexts rest

/-- The texts of the entries of a map. -/
def Value.entryTexts : List (String × Value) → List String
  | [] => []
  | (k, v) :: rest => k :: (v.texts ++ Value.entryTexts rest)

end

lemma Value.allTexts_eq (vs : List Value) : Value.allTexts vs = vs.flatMap Value.texts :=
  eq_flatMap_of_cons rfl (fun _ _ => rfl) vs

mutual

/-- The constants inside a constant that hold no others. -/
def Value.leaves : Value → List Value
  | .list items => Value.allLeaves items
  | .map entries => Value.entryLeaves entries
  | v => [v]

def Value.allLeaves : List Value → List Value
  | [] => []
  | v :: rest => v.leaves ++ Value.allLeaves rest

/-- The leaves of the entries of a map. -/
def Value.entryLeaves : List (String × Value) → List Value
  | [] => []
  | (_, v) :: rest => v.leaves ++ Value.entryLeaves rest

end

lemma Value.allLeaves_eq (vs : List Value) : Value.allLeaves vs = vs.flatMap Value.leaves :=
  eq_flatMap_of_cons rfl (fun _ _ => rfl) vs

def Predicate.texts (p : Predicate) : List String := Value.allTexts p.operands

namespace Step

/-- The types of the relationships that a step follows. -/
def edgeTypes : Step → List String
  | .outE types | .inE types | .bothE types => types
  | _ => []

/-- The labels that a step itself puts, reads or gives to the entries of a map. -/
def labels : Step → List Label
  | .addE _ source target => [source, target]
  | .as l | .selectKey l | .whereLabel _ l | .aggregate l | .cap l => [l]
  | .select ls => ls
  | .project entries => entries.map Prod.fst
  | _ => []

/-- The other texts of a step: those of its constants, keys of properties, labels of nodes, and the
type of a relationship that it adds. -/
def texts : Step → List String
  | .addV l => l.toList
  | .addE type _ _ => [type]
  | .property k v => k :: v.texts
  | .propertyFrom k _ | .hasNot k | .hasKey k => [k]
  | .has k p => k :: p.texts
  | .hasLabel ls => ls
  | .is p | .choose (.predicate p) _ _ => p.texts
  | .constant v => v.texts
  | .inject vs => Value.allTexts vs
  | .values keys | .properties keys => keys
  | _ => []

end Step

end CypherGremlin
