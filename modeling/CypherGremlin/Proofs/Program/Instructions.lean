import CypherGremlin.Program.Instruction
import CypherGremlin.Proofs.Lists

/-!
# Instructions item by item

Each constant and each branch of a step is one argument of its call, and each entry and each sort
key is one of the modulators after it.
-/

namespace CypherGremlin

variable {ι : Type} (ints : Integers ι)

lemma Value.arguments_eq_map (vs : List Value) : arguments ints vs = vs.map (argument ints) :=
  eq_map_of_cons rfl (fun _ _ => rfl) vs

lemma Value.entryArguments_eq_map (entries : List (String × Value)) :
    entryArguments ints entries = entries.map fun entry => (entry.1, entry.2.argument ints) :=
  eq_map_of_cons rfl (fun _ _ => rfl) entries

namespace Traversal

lemma branchArguments_eq_map (ts : List Traversal) :
    branchArguments ints ts = ts.map fun t => .traversal (instructions ints t) :=
  eq_map_of_cons rfl (fun _ _ => rfl) ts

lemma entryModulators_eq_map (entries : List (Label × Traversal)) :
    entryModulators ints entries = entries.map fun entry => .call "by"
    [.traversal (instructions ints entry.2)] :=
  eq_map_of_cons rfl (fun _ _ => rfl) entries

lemma keyModulators_eq_map (keys : List (Traversal × SortOrder)) : keyModulators ints keys =
    keys.map fun key => .call "by" [.traversal (instructions ints key.1), key.2.argument] :=
  eq_map_of_cons rfl (fun _ _ => rfl) keys

end Traversal

end CypherGremlin
