import CypherGremlin.Traversal.Basic

/-!
# Instructions

A program is a list of instructions: an operator and its arguments.  Most steps are one instruction;
what modifies a step, such as the traversals of its entries, follows it as instructions of its own.

Groovy text and bytecode are written from the same instructions.  They differ in the integers: text
writes any integer out, bytecode has 64 bits with a sign.  The type of integers is therefore a
parameter.
-/

namespace CypherGremlin

mutual

inductive Instruction (ι : Type) where
  | call (operator : String) (arguments : List (Argument ι))

inductive Argument (ι : Type) where
  | bool (b : Bool)
  | int (i : ι)
  | float (x : Binary64)
  | string (s : String)
  | list (items : List (Argument ι))
  | map (entries : List (String × Argument ι))
  | token (encoded : String)
  | binding (name : String)
  | predicate (operator : String) (arguments : List (Argument ι))
  | traversal (instructions : List (Instruction ι))
  | constant (kind name : String)
  | function (symbol : String)

end

instance {ι : Type} : Inhabited (Instruction ι) := ⟨.call "" []⟩

/-- How the integers of a traversal become integers of a program. -/
structure Integers (ι : Type) where
  /-- An integer of the query. -/
  ofLiteral : Int64 → ι
  ofBound : UInt64 → ι

variable {ι : Type}

/-! ## Values and predicates -/

namespace Value

mutual

def argument (ints : Integers ι) : Value → Argument ι
  | .bool b => .bool b
  | .int i => .int (ints.ofLiteral i)
  | .float x => .float x
  | .string s => .string s
  | .list items => .list (arguments ints items)
  | .map entries => .map (entryArguments ints entries)
  | .token t => .token t.encode
  | .parameter name => .binding name

def arguments (ints : Integers ι) : List Value → List (Argument ι)
  | [] => []
  | v :: rest => v.argument ints :: arguments ints rest

def entryArguments (ints : Integers ι) : List (String × Value) → List (String × Argument ι)
  | [] => []
  | (k, v) :: rest => (k, v.argument ints) :: entryArguments ints rest

end

end Value

def TextPredicate.operator : TextPredicate → String
  | startingWith => "startingWith"
  | endingWith => "endingWith"
  | containing => "containing"

def LabelComparison.operator : LabelComparison → String
  | eq => "eq"
  | neq => "neq"
  | without => "without"
  | lt => "lt"
  | lte => "lte"
  | gt => "gt"
  | gte => "gte"

def Predicate.operator : Predicate → String
  | eq _ => "eq"
  | neq _ => "neq"
  | lt _ => "lt"
  | lte _ => "lte"
  | gt _ => "gt"
  | gte _ => "gte"
  | within _ => "within"
  | without _ => "without"
  | custom p _ => p.symbol
  | text p _ => p.operator

def Predicate.operands : Predicate → List Value
  | eq v | neq v | lt v | lte v | gt v | gte v | text _ v => [v]
  | within vs | without vs => vs
  | custom _ argument => argument.toList

def Predicate.argument (ints : Integers ι) (p : Predicate) : Argument ι :=
  .predicate p.operator (Value.arguments ints p.operands)

/-! ## Steps -/

def Label.argument (l : Label) : Argument ι := .string l.encode

def MapColumn.argument : MapColumn → Argument ι
  | keys => .constant "Column" "keys"
  | values => .constant "Column" "values"

def SortOrder.argument : SortOrder → Argument ι
  | asc => .constant "Order" "asc"
  | desc => .constant "Order" "desc"

def CountScope.arguments : CountScope → List (Argument ι)
  | global => []
  | .local => [.constant "Scope" "local"]

mutual

def Step.instructions (ints : Integers ι) (s : Step) : List (Instruction ι) :=
  match s with
  | .addV label => [.call s.name (label.toList.map .string)]
  | .addE type source target =>
    [.call s.name [.string type], .call "from" [source.argument], .call "to" [target.argument]]
  | .property key v => [.call s.name [.string key, v.argument ints]]
  | .propertyFrom key t => [.call s.name [.string key, .traversal (Traversal.instructions ints t)]]
  | .outE texts | .inE texts | .bothE texts | .hasLabel texts | .values texts | .properties texts =>
    [.call s.name (texts.map .string)]
  | .has key p => [.call s.name [.string key, p.argument ints]]
  | .hasNot key | .hasKey key => [.call s.name [.string key]]
  | .is p => [.call s.name [p.argument ints]]
  | .filter t | .not t | .sideEffect t | .map t | .flatMap t =>
    [.call s.name [.traversal (Traversal.instructions ints t)]]
  | .whereLabel comparison l => [.call s.name [.predicate comparison.operator [l.argument]]]
  | .and ts | .or ts | .coalesce ts | .union ts =>
    [.call s.name (Traversal.branchArguments ints ts)]
  | .as l | .selectKey l | .aggregate l | .cap l => [.call s.name [l.argument]]
  | .select labels => [.call s.name (labels.map Label.argument)]
  | .selectColumn column => [.call s.name [column.argument]]
  | .choose c yes no =>
    [.call s.name [c.argument ints, .traversal (Traversal.instructions ints yes),
      .traversal (Traversal.instructions ints no)]]
  | .constant v => [.call s.name [v.argument ints]]
  | .inject vs => [.call s.name (Value.arguments ints vs)]
  | .valueMap tokens => [.call s.name [.bool tokens]]
  | .project entries =>
    .call s.name (entries.map fun entry => entry.1.argument) ::
      Traversal.entryModulators ints entries
  | .order keys => .call s.name [] :: Traversal.keyModulators ints keys
  | .group k v =>
    [.call s.name [], .call "by" [.traversal (Traversal.instructions ints k)],
      .call "by" [.traversal (Traversal.instructions ints v)]]
  | .count scope => [.call s.name scope.arguments]
  | .limit n | .skip n => [.call s.name [.int (ints.ofBound n)]]
  | .range low high => [.call s.name [.int (ints.ofBound low), .int (ints.ofBound high)]]
  | .apply f => [.call s.name [.function f.symbol]]
  | _ => [.call s.name []]

def Condition.argument (ints : Integers ι) : Condition → Argument ι
  | .predicate p => p.argument ints
  | .traversal t => .traversal (Traversal.instructions ints t)

def Traversal.instructions (ints : Integers ι) : List Step → List (Instruction ι)
  | [] => []
  | s :: rest => s.instructions ints ++ Traversal.instructions ints rest

def Traversal.branchArguments (ints : Integers ι) : List (List Step) → List (Argument ι)
  | [] => []
  | t :: rest => .traversal (Traversal.instructions ints t) :: Traversal.branchArguments ints rest

def Traversal.entryModulators (ints : Integers ι) : List (Label × List Step) → List (Instruction ι)
  | [] => []
  | (_, t) :: rest =>
    .call "by" [.traversal (Traversal.instructions ints t)] :: Traversal.entryModulators ints rest

def Traversal.keyModulators (ints : Integers ι) :
    List (List Step × SortOrder) → List (Instruction ι)
  | [] => []
  | (t, order) :: rest =>
    .call "by" [.traversal (Traversal.instructions ints t), order.argument] ::
      Traversal.keyModulators ints rest

end

end CypherGremlin
