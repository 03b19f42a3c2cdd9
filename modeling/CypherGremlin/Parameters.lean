import CypherGremlin.Statement.Constant

/-!
# Parameters

The parameters of a query go to the engine as they are, except that null becomes the encoding of its
token.  For the same reason as in a query, no text in them may begin like the encoding of a token.
-/

namespace CypherGremlin

abbrev Parameters := Table String Literal

mutual

/-- The value of a parameter as the engine gets it. -/
def Literal.prepared : Literal → Except QueryFault Literal
  | .null => .ok (.string Token.null.encode)
  | .string s => do
    checkName s "parameter value"
    return .string s
  | .list items => do return .list (← Literal.preparedAll items)
  | .map entries => do return .map (← Literal.preparedEntries entries)
  | .bool b => .ok (.bool b)
  | .int i => .ok (.int i)
  | .float x => .ok (.float x)

/-- Some values as the engine gets them. -/
def Literal.preparedAll : List Literal → Except QueryFault (List Literal)
  | [] => .ok []
  | l :: rest => do
    let prepared ← l.prepared
    let others ← Literal.preparedAll rest
    return prepared :: others

def Literal.preparedEntries : List (String × Literal) → Except QueryFault (List (String × Literal))
  | [] => .ok []
  | (key, l) :: rest => do
    checkName key "parameter map key"
    let prepared ← l.prepared
    let others ← Literal.preparedEntries rest
    return (key, prepared) :: others

end

def Parameters.prepare (parameters : Parameters) : Except QueryFault Parameters :=
  parameters.mapM fun (name, l) => do
    checkName name "parameter"
    return (name, ← l.prepared)

end CypherGremlin
