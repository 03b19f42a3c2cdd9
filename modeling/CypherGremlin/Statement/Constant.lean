import CypherGremlin.Query.Text
import CypherGremlin.Statement.Scope

/-!
# Names and constants of a query

The texts that a query brings along must not begin like the encoding of a token, or a query could
forge one.  `checkName` refuses such a text; every name and every string literal passes through it
before it gets into a traversal.
-/

namespace CypherGremlin

/-- Refuses a text that begins like the encoding of a token. -/
def checkName (text context : String) : Except QueryFault Unit :=
  if isReserved text then .error (.reservedText text context) else .ok ()

mutual

def Literal.toValue : Literal → Except QueryFault Value
  | .null => .ok .null
  | .bool b => .ok (.bool b)
  | .int i => .ok (.int i)
  | .float x =>
    if x.isFinite then .ok (.float x)
    else .error (.invalidArgument "float literal" (x.text ++ " is not finite"))
  | .string s => do
    checkName s "string literal"
    return .string s
  | .list items => do return .list (← Literal.toValues items)
  | .map entries => do return .map (← Literal.toEntryValues entries)

def Literal.toValues : List Literal → Except QueryFault (List Value)
  | [] => .ok []
  | l :: rest => do
    let v ← l.toValue
    let vs ← Literal.toValues rest
    return v :: vs

/-- The constants of the entries of a map. -/
def Literal.toEntryValues : List (String × Literal) → Except QueryFault (List (String × Value))
  | [] => .ok []
  | (k, l) :: rest => do
    checkName k "map key"
    let v ← l.toValue
    let vs ← Literal.toEntryValues rest
    return (k, v) :: vs

end

def parameterValue (name : String) : Except QueryFault Value := do
  checkName name "parameter"
  return .parameter name

def Expr.constant? : Expr → Except QueryFault (Option Value)
  | .literal l => do return some (← l.toValue)
  | .parameter name => do return some (← parameterValue name)
  | _ => .ok none

/-- The value that a pattern gives to a property.  It must be a constant. -/
def Expr.propertyConstant (key : String) (e : Expr) : Except QueryFault Value := do
  checkName key "property key"
  match ← e.constant? with
  | some v => return v
  | none => throw (.unsupported ("non-literal property value `" ++ e.text ++ "` in pattern"))

def literalItems? (items : List Expr) : Option (List Literal) :=
  if items.isEmpty then none
  else items.mapM fun
    | .literal l => some l
    | _ => none

end CypherGremlin
