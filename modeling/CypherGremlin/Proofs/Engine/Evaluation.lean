import CypherGremlin.Parameters
import CypherGremlin.Program.Bytecode
import CypherGremlin.Proofs.Engine.Graph

/-!
# Values, predicates and functions

What an engine computes without moving: the value of an argument, whether an object passes a
predicate, what a custom function gives, what a list of values adds up to.  All of it can stop the
run, and a `Halt` says why.
-/

namespace CypherGremlin

/-- Why a run stops. -/
inductive Halt where
  /-- The program raised an error. -/
  | raised (message : String)
  | notInstalled (symbol : String)
  /-- A parameter has no value. -/
  | unbound (name : String)
  /-- An element was asked for and the object is none. -/
  | notElement (obj : Obj)
  /-- The element has been removed from the graph. -/
  | removed (obj : Obj)
  /-- The operator does not apply to the object. -/
  | unfit (operator : String) (obj : Obj)
  /-- A traversal that has to give a value gave none. -/
  | noValue (operator : String)
  /-- The instruction has other arguments than its operator takes. -/
  | malformed (operator : String)
  /-- An integer, or the next identity, is out of range. -/
  | overflow

/-- What a program is run with: the values of its parameters and the custom symbols that are
installed. -/
structure Env where
  parameters : Parameters
  symbols : List String

/-- The environment with all custom symbols. -/
def Env.standard (parameters : Parameters) : Env := ⟨parameters, Registry.standard.symbols⟩

/-! ## Values -/

namespace Env

variable (env : Env)

mutual

def value : Argument Int64 → Except Halt Obj
  | .bool b => .ok (.bool b)
  | .int i => .ok (.int i)
  | .float x => .ok (.float x)
  | .string s => .ok (.string s)
  | .token encoded => .ok (.string encoded)
  | .list items => do return .list (← values items)
  | .map entries => do return .map (← entryValues entries)
  | .binding name =>
    match Table.get? env.parameters name with
    | some l => .ok (Obj.ofLiteral l)
    | none => .error (.unbound name)
  | .predicate operator _ => .error (.malformed operator)
  | .traversal _ => .error (.malformed "traversal")
  | .constant kind _ => .error (.malformed kind)
  | .function symbol => .error (.malformed symbol)

def values : List (Argument Int64) → Except Halt (List Obj)
  | [] => .ok []
  | a :: rest => do
    let v ← value a
    let vs ← values rest
    return v :: vs

/-- The entries of a map argument. -/
def entryValues : List (String × Argument Int64) → Except Halt (List (Obj × Obj))
  | [] => .ok []
  | (k, a) :: rest => do
    let v ← value a
    let vs ← entryValues rest
    return (.string k, v) :: vs

end

/-- Stops unless the symbol is installed. -/
def require (symbol : String) : Except Halt Unit :=
  if env.symbols.contains symbol then .ok () else .error (.notInstalled symbol)

end Env

/-! ## Predicates -/

/-- Both are texts, the first is no encoded token, and a test of texts holds. -/
def Obj.textTest (check : String → String → Bool) (obj : Obj) : Option Obj → Bool
  | some (.string p) =>
    match obj with
    | .string s => !isReserved s && check s p
    | _ => false
  | _ => false

def endsIn (text ending : String) : Bool :=
  (dropLead? ending.toList.reverse text.toList.reverse).isSome

/-- The values that membership is about: those of a list that stands alone, or the values
themselves.
-/
def flattened : List Obj → List Obj
  | [.list items] => items
  | values => values

/-- The predicate of an operator, given the values it compares with. -/
def passes (operator : String) (args : List Obj) (obj : Obj) : Except Halt Bool :=
  let arg := args.head?
  let order := arg.bind obj.compare?
  match operator with
  | "eq" => .ok (arg.any obj.looselyEqual)
  | "neq" => .ok (arg.any (!obj.looselyEqual ·))
  | "lt" => .ok (order == some .lt)
  | "lte" => .ok (order == some .lt || order == some .eq)
  | "gt" => .ok (order == some .gt)
  | "gte" => .ok (order == some .gt || order == some .eq)
  | "within" => .ok ((flattened args).any obj.looselyEqual)
  | "without" => .ok (!(flattened args).any obj.looselyEqual)
  | "startingWith" | "cypherStartsWith" => .ok (obj.textTest (fun s p => beginsWith p s) arg)
  | "endingWith" | "cypherEndsWith" => .ok (obj.textTest endsIn arg)
  | "containing" | "cypherContains" => .ok (obj.textTest mentions arg)
  | "cypherIsNode" => .ok (obj matches .vertex _)
  | "cypherIsRelationship" => .ok (obj matches .edge _)
  | "cypherIsString" => .ok (match obj with
    | .string s => !isReserved s
    | _ => false)
  | _ => .error (.malformed operator)

/-- Whether an object passes a predicate.  A custom predicate has to be installed. -/
def Env.test (env : Env) (predicate : Argument Int64) (obj : Obj) : Except Halt Bool :=
  match predicate with
  | .predicate operator args => do
    if beginsWith "cypher" operator then env.require operator
    passes operator (← env.values args) obj
  | _ => .error (.malformed "predicate")

/-- Whether an object compares with a labelled one. -/
def comparesWith (operator : String) (left right : Obj) : Except Halt Bool :=
  let order := left.compare? right
  match operator with
  | "eq" => .ok (left.looselyEqual right)
  | "neq" => .ok (!left.looselyEqual right)
  | "without" => .ok (match right with
    | .list items => !items.any left.looselyEqual
    | other => !left.looselyEqual other)
  | "lt" => .ok (order == some .lt)
  | "lte" => .ok (order == some .lt || order == some .eq)
  | "gt" => .ok (order == some .gt)
  | "gte" => .ok (order == some .gt || order == some .eq)
  | _ => .error (.malformed operator)

namespace Graph

def element (g : Graph) (obj : Obj) : Except Halt Element :=
  match g.element? obj with
  | some element => .ok element
  | none => .error (if obj.isElement then .removed obj else .notElement obj)

/-- The edge of a handle, for an operator that needs one. -/
def edge (g : Graph) (operator : String) (obj : Obj) : Except Halt Edge :=
  match obj with
  | .edge id =>
    match g.edges.get? id with
    | some edge => .ok edge
    | none => .error (.removed obj)
  | _ => .error (.unfit operator obj)

/-- The map of an element: perhaps its identity and its label, then its properties.  A property of a
vertex is in a list of its own. -/
def valueMap (g : Graph) (tokens : Bool) (obj : Obj) : Except Halt Obj := do
  let element ← g.element obj
  let id : Int64 := match obj with
    | .vertex id | .edge id => id
    | _ => 0
  let wrap (v : Obj) : Obj := match obj with
    | .vertex _ => .list [v]
    | _ => v
  let head : List (Obj × Obj) :=
    if tokens then [(.idKey, .int id), (.labelKey, .string element.label)] else []
  return .map (head ++ element.properties.map fun (k, v) => (.string k, wrap v))

end Graph

/-- The value of a custom function. -/
def applied (g : Graph) (symbol : String) (obj : Obj) : Except Halt Obj :=
  match symbol, obj with
  | "cypherException", .string message => .error (.raised message)
  | "cypherToString", .string s => .ok (.string s)
  | "cypherToString", .int i => .ok (.string (toString i.toInt))
  | "cypherToString", .float x => .ok (.string x.text)
  | "cypherToString", .bool b => .ok (.string (if b then "true" else "false"))
  | "cypherToBoolean", .bool b => .ok (.bool b)
  | "cypherToBoolean", .string s =>
    .ok (if s.toLower == "true" then .bool true else if s.toLower == "false" then .bool false
      else .cypherNull)
  | "cypherToInteger", .int i => .ok (.int i)
  | "cypherToInteger", .float x => .ok (.int x.truncated)
  | "cypherToInteger", .string s =>
    let text := trimBlanks s
    .ok (((Int64.ofText? text <|> (Binary64.ofLooseText? text).map (·.truncated)).map .int).getD
    .cypherNull)
  | "cypherToFloat", .int i => .ok (.float (Binary64.ofInt i.toInt))
  | "cypherToFloat", .float x => .ok (.float x)
  | "cypherToFloat", .string s =>
    .ok (((Binary64.ofLooseText? (trimBlanks s)).map .float).getD .cypherNull)
  | "cypherLength", .string s | "cypherSize", .string s => .ok (.ofNat s.length)
  | "cypherLength", .list items | "cypherSize", .list items => .ok (.ofNat items.length)
  | "cypherProperties", .vertex id => elementProperties (.vertex id)
  | "cypherProperties", .edge id => elementProperties (.edge id)
  | "cypherProperties", .map entries => .ok (.map entries)
  | _, _ => .error (.unfit symbol obj)
where
  elementProperties (handle : Obj) : Except Halt Obj := do
    return .map ((← g.element handle).properties.map fun (k, v) => (.string k, v))

/-- The value of a custom function, which has to be installed. -/
def Env.apply (env : Env) (g : Graph) (symbol : String) (obj : Obj) : Except Halt Obj := do
  env.require symbol
  applied g symbol obj

/-! ## Reductions -/

/-- How a list of values is reduced to one. -/
inductive Reduction where
  | sum
  | mean
  | min
  | max
deriving DecidableEq

namespace Reduction

def integers? (values : List Obj) : Option (List Int64) :=
  values.mapM fun
    | .int i => some i
    | _ => none

/-- The sum of integers, each partial sum in range. -/
def integerSum (total : Int64) : List Int64 → Except Halt Int64
  | [] => .ok total
  | i :: rest =>
    let next := total.toInt + i.toInt
    if Int64.minValue.toInt ≤ next ∧ next ≤ Int64.maxValue.toInt then integerSum (total + i) rest
    else .error .overflow

/-- The sum of numbers as floating-point numbers, from the first to the last. -/
def floatSum (operator : String) (total : Binary64) : List Obj → Except Halt Binary64
  | [] => .ok total
  | v :: rest =>
    match v.number? with
    | some x => floatSum operator (total.add x) rest
    | none => .error (.unfit operator v)

/-- The first value that no other one precedes, where an order decides what precedes. -/
def extreme (precedes : Ordering) (first : Obj) (rest : List Obj) : Obj :=
  rest.foldl (fun best v => if v.sortOrder best = precedes then v else best) first

/-- The reduction of a first value and others. -/
def reduce (r : Reduction) (first : Obj) (rest : List Obj) : Except Halt Obj :=
  match r with
  | sum =>
    match integers? (first :: rest) with
    | some is => do return .int (← integerSum 0 is)
    | none => do return .float (← floatSum "sum" .zero (first :: rest))
  | mean => do
    let total ← floatSum "mean" .zero (first :: rest)
    return .float (total.divide (Binary64.ofNat (first :: rest).length))
  | min => .ok (extreme .lt first rest)
  | max => .ok (extreme .gt first rest)

/-- The reduction of a list of values.  Nothing is reduced to nothing. -/
def ofList (r : Reduction) : List Obj → Except Halt (List Obj)
  | [] => .ok []
  | first :: rest => do return [← r.reduce first rest]

end Reduction

end CypherGremlin
