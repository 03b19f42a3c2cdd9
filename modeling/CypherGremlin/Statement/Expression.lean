import CypherGremlin.Statement.Element
import CypherGremlin.Statement.Function

/-!
# Traversals of expressions

An expression becomes a traversal that starts from the current row.  What the traversal has to do
depends on where the expression stands; a `Goal` says which of three it is:

* the value of the expression, null being a token: exactly one result;
* a filter: a result exactly where the expression is true;
* an operand of a test: the value unless it is null.

An expression that is a test (a comparison, a conjunction, …) has a natural traversal as a filter,
all others have one as a value.  `Goal.ofTest` and `Goal.ofValue` make of either what the goal asks
for, so that `Expr.lower` has one case for each form of expression.
-/

namespace CypherGremlin

/-! ## Goals -/

/-- What the traversal of an expression has to do. -/
inductive Goal where
  | value (mode : Mode)
  | filter
  | operand
deriving DecidableEq, Repr

namespace Goal

/-- How values are wanted. -/
def mode : Goal → Mode
  | value m => m
  | filter | operand => .raw

def ofValue (goal : Goal) (t : Traversal) : Traversal :=
  match goal with
  | value _ => t
  | filter => t ++ [.is (.eq (.bool true))]
  | operand => t ++ [.notNull]

def ofTest (goal : Goal) (t : Traversal) : Traversal :=
  match goal with
  | filter => t
  | _ => goal.ofValue [.choose (.traversal t) [.constant (.bool true)] [.constant (.bool false)]]

end Goal

/-- The filter that everything passes. -/
def Traversal.always : Traversal := [.identity]

/-- The filter that nothing passes. -/
def Traversal.never : Traversal := [.not [.identity]]

/-! ## Tests -/

def Comparison.predicate (op : Comparison) (v : Value) : Predicate :=
  match op with
  | .eq => .eq v
  | .neq => .neq v
  | .lt => .lt v
  | .lte => .lte v
  | .gt => .gt v
  | .gte => .gte v

def Comparison.labelled : Comparison → LabelComparison
  | .eq => .eq
  | .neq => .neq
  | .lt => .lt
  | .lte => .lte
  | .gt => .gt
  | .gte => .gte

def StringTest.predicate : StringTest → CustomPredicate
  | .startsWith => .startsWith
  | .endsWith => .endsWith
  | .contains => .contains

def Expr.isNullLiteral : Expr → Bool
  | .literal .null => true
  | _ => false

/-- The right side of a string test: a string or a parameter. -/
def Expr.stringOperand (e : Expr) : Except QueryFault Value :=
  match e with
  | .literal (.string s) => (Literal.string s).toValue
  | .parameter name => parameterValue name
  | _ => .error (.unsupported ("non-literal string operand `" ++ e.text ++ "`"))

/-- The right side of a membership test: the values to be among. -/
def Expr.candidates (e : Expr) : Except QueryFault (List Value) :=
  match e with
  | .literal (.list items) => Literal.toValues items
  | .list items =>
    match literalItems? items with
    | some literals => Literal.toValues literals
    | none => .error (.unsupported ("IN over non-literal list `" ++ e.text ++ "`"))
  | .parameter name => do return [← parameterValue name]
  | _ => .error (.unsupported ("IN over `" ++ e.text ++ "`"))

/-- The branches that an operand adds to a conjunction.  A conjunction adds its own branches. -/
def Expr.conjuncts (e : Expr) (t : Traversal) : List Traversal :=
  match e, t with
  | .and _ _, [.and branches] => branches
  | _, _ => [t]

/-- The branches that an operand adds to a disjunction.  A disjunction adds its own branches. -/
def Expr.disjuncts (e : Expr) (t : Traversal) : List Traversal :=
  match e, t with
  | .or _ _, [.or branches] => branches
  | _, _ => [t]

/-! ## Properties -/

/-- The operand of a test can read a property of a variable directly: a property that is missing
gives nothing, and so does a variable that is null.  This needs a variable that is known to be an
element or a map. -/
def Scope.directAccess? (scope : Scope) (goal : Goal) (base : Expr) (key : String) :
    Except QueryFault (Option Traversal) :=
  match goal, base with
  | .operand, .var v => do
    let binding ← scope.lookup v "predicate"
    checkName key "property key"
    match binding.kind with
    | .node | .relationship => return some (binding.select v ++ [.access false key])
    | .map => return some (binding.select v ++ [.access true key])
    | .path | .value => return none
  | _, _ => .ok none

/-- The step that reads a property of a value; null if the value is null or has no such property. -/
def Scope.propertyStep (scope : Scope) (base : Expr) (key : String) : Except QueryFault Step := do
  checkName key "property key"
  let isMap ← match base with
    | .var v => do pure ((← scope.lookup v "property access").kind == .map)
    | .map _ => pure true
    | _ => pure false
  return .unlessNull [.coalesce [[.access isMap key], Traversal.null]]

/-! ## Expressions -/

mutual

def Expr.lower (scope : Scope) (goal : Goal) : Expr → Supply Traversal
  | .literal l =>
    match goal, l with
    | .filter, .bool true => return Traversal.always
    | .filter, .bool false | .filter, .null => return Traversal.never
    | _, _ => do return goal.ofValue [.constant (← l.toValue)]
  | .parameter name => do return goal.ofValue [.constant (← parameterValue name)]
  | .var v => do return goal.ofValue (← scope.read v goal.mode)
  | .property base key => do
    match ← scope.directAccess? goal base key with
    | some t => return t
    | none =>
      let step ← scope.propertyStep base key
      let t ← base.lower scope (.value .raw)
      return goal.ofValue (t ++ [step])
  | .list items =>
    match items, literalItems? items with
    | [], _ => return goal.ofValue [.constant (.list [])]
    | _, some literals => do return goal.ofValue [.constant (.list (← Literal.toValues literals))]
    | _, none => do
      let branches ← Expr.lowerAll scope goal.mode items
      return goal.ofValue [.union branches, .fold]
  | .map entries =>
    match entries with
    | [] => return goal.ofValue [.constant (.map [])]
    | _ => do return goal.ofValue [.project (← Expr.lowerEntries scope goal.mode entries)]
  | .not inner => do return goal.ofTest [.not (← inner.lower scope .filter)]
  | .and l r => do
    let left ← l.lower scope .filter
    let right ← r.lower scope .filter
    return goal.ofTest [.and (l.conjuncts left ++ r.conjuncts right)]
  | .or l r => do
    let left ← l.lower scope .filter
    let right ← r.lower scope .filter
    return goal.ofTest [.or (l.disjuncts left ++ r.disjuncts right)]
  | .xor l r => throw (.unsupported ("XOR in `" ++ (Expr.xor l r).text ++ "`"))
  | .compare op l r => do
    if l.isNullLiteral || r.isNullLiteral then return goal.ofTest Traversal.never
    match ← r.constant? with
    | some v => do
      let left ← l.lower scope .operand
      return goal.ofTest (left ++ [.is (op.predicate v)])
    | none =>
      match ← l.constant? with
      | some v => do
        let right ← r.lower scope .operand
        return goal.ofTest (right ++ [.is (op.flipped.predicate v)])
      | none => do
        let temporary ← Supply.fresh .generated
        let right ← r.lower scope .operand
        let left ← l.lower scope .operand
        return goal.ofTest (right ++ [.as temporary] ++ left ++ [.whereLabel op.labelled temporary])
  | .stringMatch test l r => do
    let argument ← r.stringOperand
    let left ← l.lower scope .operand
    return goal.ofTest (left ++ [.is (.custom test.predicate (some argument))])
  | .isNull inner => do
    let t ← inner.lower scope (.value .raw)
    return goal.ofTest (t ++ [.isNull])
  | .isNotNull inner => do
    let t ← inner.lower scope (.value .raw)
    return goal.ofTest (t ++ [.notNull])
  | .member item group => do
    let candidates ← group.candidates
    let t ← item.lower scope .operand
    return goal.ofTest (t ++ [.is (.within candidates)])
  | .hasLabels v labels => do
    let _ ← scope.lookup v "label predicate"
    return goal.ofTest (.select [.named v] :: (← labelTests labels))
  | .pattern p => do return goal.ofTest (← Pattern.testTraversal scope p)
  | .arithmetic op l r =>
    throw (.unsupported ("arithmetic expression `" ++ (Expr.arithmetic op l r).text ++ "`"))
  | .call name _ args =>
    match Function.ofName name with
    | .aggregate => throw (.unsupported ("aggregate function " ++ name ++ "() in this position"))
    | .coalesce => do
      if args.isEmpty then throw (.arity name "at least one")
      let branches ← Expr.lowerAll scope goal.mode args
      return goal.ofValue [.coalesce (branches.map (· ++ [.notNull]) ++ [Traversal.null])]
    | .range => do return goal.ofValue (← rangeOf scope.arithmetic args)
    | f =>
      match args with
      | [arg] =>
        match f with
        | .nodes =>
          do return goal.ofValue ((← scope.pathArgument name arg).readKind goal.mode .node)
        | .relationships => do
          return goal.ofValue ((← scope.pathArgument name arg).readKind goal.mode .relationship)
        | .existence =>
          match arg with
          | .property base key => do
            checkName key "property key"
            let isMap ← base.isMap scope
            let t ← base.lower scope (.value .raw)
            return goal.ofValue (t ++ [.hasAccess isMap key])
          | _ => throw (.unsupported ("exists() over `" ++ arg.text ++ "`"))
        | f => do
          if f == .length && arg.isPath scope then
            let shape ← scope.pathArgument name arg
            return goal.ofValue [.constant (.int (Int64.ofNat shape.hops))]
          let body ← f.body scope goal.mode name arg
          let t ← arg.lower scope (.value .raw)
          return goal.ofValue (t ++ [.unlessNull body])
      | _ => throw (.arity name "exactly one")
  | .countStar => throw (.unsupported "count(*) outside of a projection")

/-- The values of some expressions. -/
def Expr.lowerAll (scope : Scope) (mode : Mode) : List Expr → Supply (List Traversal)
  | [] => return []
  | e :: rest => do
    let t ← e.lower scope (.value mode)
    let ts ← Expr.lowerAll scope mode rest
    return t :: ts

def Expr.lowerEntries (scope : Scope) (mode : Mode) :
    List (String × Expr) → Supply (List (Label × Traversal))
  | [] => return []
  | (key, e) :: rest => do
    checkName key "map key"
    let t ← e.lower scope (.value mode)
    let ts ← Expr.lowerEntries scope mode rest
    return (.named key, t) :: ts

end

end CypherGremlin
