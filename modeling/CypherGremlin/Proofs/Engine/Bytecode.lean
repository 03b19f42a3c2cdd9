import CypherGremlin.Proofs.Engine.Machine
import CypherGremlin.Row.Raw

/-!
# Running bytecode

An engine reads bytecode instruction by instruction.  The instructions `by`, `from` and `to` modify
the one before them, so a program is a list of groups: a call and its modulators.  `Call.transform`
finds the operation of a call by its operator and checks its arguments.

A traversal that is an argument is loaded first: it becomes the transform that it stands for, so
that loading follows the structure of the bytecode and nothing else has to.

`Bytecode.execute` runs a whole program.  It changes the graph only if the program succeeds, and it
gives the final objects as rows.
-/

namespace CypherGremlin

/-! ## Loaded calls -/

/-- An argument: data, or a traversal that has been loaded. -/
inductive Operand where
  | data (a : Argument Int64)
  | body (f : Transform)

/-- An instruction whose arguments have been loaded. -/
structure Call where
  operator : String
  operands : List Operand

def Call.isModulator (call : Call) : Bool :=
  call.operator == "by" || call.operator == "from" || call.operator == "to"

namespace Operand

def text? : Operand → Option String
  | data (.string s) => some s
  | _ => none

/-- The argument is a traversal. -/
def body? : Operand → Option Transform
  | body f => some f
  | data _ => none

/-- The argument is a number of traversers.  A negative one is as good as none. -/
def bound? : Operand → Option Nat
  | data (.int i) => some (if i < 0 then UInt64.size - 1 else i.toInt.toNat)
  | _ => none

/-- The argument is the name of a constant of the language. -/
def constant? : Operand → Option String
  | data (.constant _ name) => some name
  | _ => none

end Operand

namespace Call

variable (call : Call)

/-- A part of the arguments that has to be there. -/
def demand {α : Type} (x : Option α) : Except Halt α :=
  match x with
  | some a => .ok a
  | none => .error (.malformed call.operator)

def text (i : Nat) : Except Halt String := call.demand (call.operands[i]?.bind Operand.text?)

def texts : Except Halt (List String) := call.demand (call.operands.mapM Operand.text?)

/-- The traversal at a position. -/
def body (i : Nat) : Except Halt Transform := call.demand (call.operands[i]?.bind Operand.body?)

/-- All arguments as traversals. -/
def bodies : Except Halt (List Transform) := call.demand (call.operands.mapM Operand.body?)

/-- The number of traversers at a position. -/
def bound (i : Nat) : Except Halt Nat := call.demand (call.operands[i]?.bind Operand.bound?)

/-- The traversal at the first position, where a wrong argument is noticed only when it is run. -/
def lateBody : Transform := fun ts => do
  let f ← Run.result (call.body 0)
  f ts

/-- The direction, which stands second, is the descending one. -/
def descending : Bool := (call.operands[1]?.bind Operand.constant?) == some "desc"

end Call

def modulator (modulators : List Call) (operator : String) : Except Halt Call :=
  match modulators.find? (·.operator == operator) with
  | some call => .ok call
  | none => .error (.malformed operator)

/-! ## Operations of calls -/

namespace Call

variable (env : Env)

def valueOf (call : Call) : Option Operand → Except Halt Obj
  | some (.data a) => env.value a
  | _ => .error (.malformed call.operator)

/-- The test that an argument stands for. -/
def testOf (call : Call) (operand : Operand) (obj : Obj) : Except Halt Bool :=
  match operand with
  | .data a => env.test a obj
  | .body _ => .error (.malformed call.operator)

/-- The operation of `where`: a traversal, or a comparison with what a name stands for. -/
def whereTransform (call : Call) : Except Halt Transform :=
  match call.operands.head? with
  | some (.body f) => .ok (Machine.filter f)
  | some (.data (.predicate operator (.string key :: _))) => .ok (Machine.whereLabel operator key)
  | _ => .error (.malformed call.operator)

/-- The operation of `select`: a column of a map, or what names stand for. -/
def selectTransform (call : Call) : Except Halt Transform :=
  match call.operands.head? with
  | some (.data (.constant _ column)) => .ok (Machine.selectColumn column)
  | _ => do return Machine.select (← call.texts)

/-- The condition of `choose`. -/
def condition (call : Call) : Operand → Traverser → Run Bool
  | .body f => Machine.produces f
  | operand => fun t => Run.result (call.testOf env operand t.obj)

/-- The operation of `map`: a custom function, or a traversal. -/
def mapTransform (call : Call) : Except Halt Transform :=
  match call.operands.head? with
  | some (.data (.function symbol)) => .ok (Machine.apply env symbol)
  | _ => do return Machine.map (← call.body 0)

/-- The value of `property`: a traversal that has to give one, or an argument. -/
def propertyValue (call : Call) : Operand → Traverser → Run Obj
  | .body f => Machine.value "property" f
  | operand => fun _ => Run.result (call.valueOf env (some operand))

def transform (call : Call) (modulators : List Call) : Except Halt Transform :=
  let bys := modulators.filter (·.operator == "by")
  match call.operator with
  | "V" => .ok Machine.V
  | "E" => .ok Machine.E
  | "addV" => .ok (Machine.addV (call.operands.head?.bind Operand.text?))
  | "addE" => do
    let type ← call.text 0
    let source ← (← modulator modulators "from").text 0
    let target ← (← modulator modulators "to").text 0
    return Machine.addE type source target
  | "property" => do
    let key ← call.text 0
    let operand ← call.demand call.operands[1]?
    return Machine.property key (call.propertyValue env operand)
  | "drop" => .ok Machine.drop
  | "outE" => do return Machine.outE (← call.texts)
  | "inE" => do return Machine.inE (← call.texts)
  | "bothE" => do return Machine.bothE (← call.texts)
  | "inV" => .ok Machine.inV
  | "outV" => .ok Machine.outV
  | "otherV" => .ok Machine.otherV
  | "has" => do
    let key ← call.text 0
    let operand ← call.demand call.operands[1]?
    return Machine.has key (call.testOf env operand)
  | "hasLabel" => do return Machine.hasLabel (← call.texts)
  | "hasNot" => do return Machine.hasNot (← call.text 0)
  | "hasKey" => do return Machine.hasKey (← call.text 0)
  | "is" => do return Machine.is (call.testOf env (← call.demand call.operands.head?))
  | "where" => call.whereTransform
  | "and" => do return Machine.and (← call.bodies)
  | "or" => do return Machine.or (← call.bodies)
  | "not" => do return Machine.not (← call.body 0)
  | "as" => do return Machine.as (← call.text 0)
  | "select" => call.selectTransform
  | "choose" => do
    let condition ← call.demand call.operands.head?
    return Machine.choose (call.condition env condition) (← call.body 1) (← call.body 2)
  | "coalesce" => do return Machine.coalesce (← call.bodies)
  | "union" => do return Machine.union (← call.bodies)
  | "constant" => .ok (Machine.constant (call.valueOf env call.operands.head?))
  | "inject" =>
    .ok (Machine.inject (call.operands.mapM fun operand => call.valueOf env (some operand)))
  | "id" => .ok Machine.id
  | "label" => .ok Machine.label
  | "values" => do return Machine.values (← call.texts)
  | "properties" => do return Machine.properties (← call.texts)
  | "key" => .ok Machine.key
  | "value" => .ok Machine.propertyValue
  | "valueMap" => .ok (Machine.valueMap (call.operands.head? matches some (.data (.bool true))))
  | "project" => do
    let keys ← call.texts
    if bys.length ≠ keys.length then throw (.malformed call.operator)
    return Machine.project (keys.zip (bys.map lateBody))
  | "order" => .ok (Machine.order (modulators.map fun key => (key.lateBody, key.descending)))
  | "group" =>
    match bys with
    | key :: gathered :: _ => do return Machine.group (← key.body 0) (← gathered.body 0)
    | _ => .error (.malformed call.operator)
  | "dedup" => .ok Machine.dedup
  | "count" => .ok (if call.operands.isEmpty then Machine.count else Machine.countLocal)
  | "fold" => .ok Machine.fold
  | "unfold" => .ok Machine.unfold
  | "sum" => .ok (Machine.reduce .sum)
  | "mean" => .ok (Machine.reduce .mean)
  | "min" => .ok (Machine.reduce .min)
  | "max" => .ok (Machine.reduce .max)
  | "aggregate" => do return Machine.aggregate (← call.text 0)
  | "cap" => do return Machine.cap (← call.text 0)
  | "limit" => do return Machine.limit (← call.bound 0)
  | "skip" => do return Machine.skip (← call.bound 0)
  | "range" => do return Machine.range (← call.bound 0) (← call.bound 1)
  | "barrier" | "identity" => .ok Machine.identity
  | "sideEffect" => do return Machine.sideEffect (← call.body 0)
  | "map" => call.mapTransform env
  | "flatMap" => do return Machine.flatMap (← call.body 0)
  | operator => .error (.malformed operator)

def run (call : Call) (modulators : List Call) : Transform := fun ts => do
  let f ← Run.result (call.transform env modulators)
  f ts

end Call

/-! ## Programs -/

/-- Divides calls into groups: modulators that stand in front, and then each call with the
modulators behind it. -/
def groupCalls : List Call → List Call × List (Call × List Call)
  | [] => ([], [])
  | call :: rest =>
    let (modulators, groups) := groupCalls rest
    if call.isModulator then (call :: modulators, groups) else ([], (call, modulators) :: groups)

/-- Runs groups one after another. -/
def runGroups (env : Env) : List (Call × List Call) → Transform
  | [], ts => return ts
  | (call, modulators) :: rest, ts => do
    let out ← call.run env modulators ts
    runGroups env rest out

/-- Runs calls.  A modulator that stands in front is run like any other call, and fails. -/
def runCalls (env : Env) (calls : List Call) : Transform :=
  match groupCalls calls with
  | ([], groups) => runGroups env groups
  | (call :: modulators, groups) => runGroups env ((call, modulators) :: groups)

mutual

def Instruction.load (env : Env) : Instruction Int64 → Call
  | .call operator arguments => ⟨operator, Argument.loadAll env arguments⟩

def Argument.load (env : Env) : Argument Int64 → Operand
  | .traversal code => .body (runCalls env (Instruction.loadAll env code))
  | .bool b => .data (.bool b)
  | .int i => .data (.int i)
  | .float x => .data (.float x)
  | .string s => .data (.string s)
  | .list items => .data (.list items)
  | .map entries => .data (.map entries)
  | .token encoded => .data (.token encoded)
  | .binding name => .data (.binding name)
  | .predicate operator arguments => .data (.predicate operator arguments)
  | .constant kind name => .data (.constant kind name)
  | .function symbol => .data (.function symbol)

def Argument.loadAll (env : Env) : List (Argument Int64) → List Operand
  | [] => []
  | a :: rest => Argument.load env a :: Argument.loadAll env rest

def Instruction.loadAll (env : Env) : List (Instruction Int64) → List Call
  | [] => []
  | i :: rest => Instruction.load env i :: Instruction.loadAll env rest

end

/-- Runs bytecode on a stream of traversers. -/
def Bytecode.run (env : Env) (code : Bytecode) : Transform :=
  runCalls env (Instruction.loadAll env code)

/-- The stream that the first call of a program starts from.  Injection adds to nothing; the other
calls that can begin a program need a traverser to work on. -/
def Call.seed (call : Call) : Except Halt (List Traverser) :=
  match call.operator with
  | "V" | "E" | "addV" => .ok [.fresh .null]
  | "inject" => .ok []
  | operator => .error (.malformed operator)

/-- Runs a whole program.  Its first call has no modulators. -/
def Bytecode.runProgram (env : Env) (code : Bytecode) : Run (List Traverser) :=
  match Instruction.loadAll env code with
  | [] => throw (.malformed "program")
  | call :: rest => do
    let seed ← Run.result call.seed
    let out ← call.run env [] seed
    runCalls env rest out

mutual

/-- The buckets that an instruction fills at any depth, outer ones first. -/
def Instruction.buckets : Instruction Int64 → List String
  | .call operator arguments =>
    (match operator, arguments with
      | "aggregate", .string key :: _ => [key]
      | _, _ => []) ++ Argument.bucketsAll arguments

def Argument.buckets : Argument Int64 → List String
  | .traversal code => Instruction.bucketsAll code
  | _ => []

def Argument.bucketsAll : List (Argument Int64) → List String
  | [] => []
  | a :: rest => a.buckets ++ Argument.bucketsAll rest

def Instruction.bucketsAll : List (Instruction Int64) → List String
  | [] => []
  | i :: rest => i.buckets ++ Instruction.bucketsAll rest

end

/-- A graph with empty buckets of the given names. -/
def World.start (graph : Graph) (keys : List String) : World :=
  ⟨graph, Table.ofEntries (keys.map fun key => (key, []))⟩

/-! ## Rows -/

/-- An object as the key of a map in a row. -/
def Obj.rawKey : Obj → RawKey
  | .idKey => .id
  | .labelKey => .label
  | .string name => .name name
  | obj => .name obj.describe

namespace Obj

variable (handle : Obj → Except Halt Raw)

mutual

/-- An object as a value of a row, given what becomes of handles. -/
def raw : Obj → Except Halt Raw
  | .null => .ok .null
  | .bool b => .ok (.bool b)
  | .int i => .ok (.int i)
  | .float x => .ok (.float x)
  | .string s => .ok (.string s)
  | .list items => do return .list (← rawItems items)
  | .map entries => do return .map (Table.ofEntries (← rawEntries entries))
  | .entry k v => do return .map [(k.rawKey, ← raw v)]
  | .idKey => .ok (.string "T.id")
  | .labelKey => .ok (.string "T.label")
  | .vertex id => handle (.vertex id)
  | .edge id => handle (.edge id)
  | .property _ _ v => raw v

/-- Some objects as values of a row. -/
def rawItems : List Obj → Except Halt (List Raw)
  | [] => .ok []
  | o :: rest => do
    let v ← raw o
    let vs ← rawItems rest
    return v :: vs

/-- The entries of a map as entries of a row's map. -/
def rawEntries : List (Obj × Obj) → Except Halt (List (RawKey × Raw))
  | [] => .ok []
  | (k, o) :: rest => do
    let v ← raw o
    let vs ← rawEntries rest
    return (k.rawKey, v) :: vs

end

end Obj

namespace Graph

variable (g : Graph)

/-- A handle with its content, given what becomes of the values of properties. -/
def rawHandle (content : Obj → Except Halt Raw) (obj : Obj) : Except Halt Raw :=
  match obj with
  | .vertex id => do
    let element ← g.element obj
    let properties ← element.properties.mapM fun (k, v) => do return (k, Raw.list [← content v])
    return .vertex (.int id) element.label properties
  | _ => do
    let edge ← g.edge "row" obj
    let properties ← edge.properties.mapM fun (k, v) => do return (k, ← content v)
    let id := match obj with
      | .edge id => id
      | _ => 0
    return .edge (.int id) edge.label (.int edge.source) (.int edge.target) properties

/-- An object as a value of a row, where handles stand inside each other at most so deep. -/
def rawWithin : Nat → Obj → Except Halt Raw
  | 0 => Obj.raw fun obj => .error (.unfit "row" obj)
  | depth + 1 => Obj.raw (g.rawHandle (rawWithin depth))

/-- An object as a value of a row.  A property can hold a handle; handles that stand inside each
other deeper than there are elements go round in a circle and have no end. -/
def rawValue (obj : Obj) : Except Halt Raw :=
  g.rawWithin (g.vertices.entries.length + g.edges.entries.length) obj

def rawColumn (entry : Obj × Obj) : Except Halt (String × Raw) :=
  match entry.1 with
  | .string name => do return (name, ← g.rawValue entry.2)
  | key => .error (.unfit "row" key)

/-- An object as a row.  It must be a map whose keys are texts. -/
def rawRow : Obj → Except Halt RawRow
  | .map entries => do return Table.ofEntries (← entries.mapM g.rawColumn)
  | obj => .error (.unfit "row" obj)

end Graph

/-- Runs a program on a graph.  The result is the rows and the graph afterwards. -/
def Bytecode.execute (env : Env) (graph : Graph) (code : Bytecode) :
    Except Halt (List RawRow × Graph) := do
  let (ts, world) ← (Bytecode.runProgram env code).run
    (World.start graph (Instruction.bucketsAll code))
  let rows ← ts.mapM fun t => world.graph.rawRow t.obj
  return (rows, world.graph)

end CypherGremlin
