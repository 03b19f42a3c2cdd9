import CypherGremlin.Number.Layout
import CypherGremlin.Query.Basic
import CypherGremlin.Text.Basic

/-!
# Cypher text

The text of an expression names the column of a projected item without an alias, and it quotes
refused constructs in messages.  It is not meant to be read back: operators are written without
brackets, and of a string only the single quote is escaped.
-/

namespace CypherGremlin

/-! ## Literals -/

/-- A string literal.  Only the quote is escaped. -/
def Literal.quoteText (s : String) : String :=
  "'" ++ String.ofList (s.toList.flatMap fun c => if c = '\'' then ['\\', '\''] else [c]) ++ "'"

mutual

def Literal.text : Literal → String
  | .null => "null"
  | .bool b => if b then "true" else "false"
  | .int i => toString i.toInt
  | .float x => x.text
  | .string s => Literal.quoteText s
  | .list items => "[" ++ separated ", " (itemTexts items) ++ "]"
  | .map entries => "\x7b" ++ separated ", " (entryTexts entries) ++ "\x7d"

def itemTexts : List Literal → List String
  | [] => []
  | item :: rest => item.text :: itemTexts rest

def entryTexts : List (String × Literal) → List String
  | [] => []
  | (key, value) :: rest => (key ++ ": " ++ value.text) :: entryTexts rest

end

/-! ## Operators -/

def Comparison.text : Comparison → String
  | .eq => "="
  | .neq => "<>"
  | .lt => "<"
  | .lte => "<="
  | .gt => ">"
  | .gte => ">="

def StringTest.text : StringTest → String
  | .startsWith => "STARTS WITH"
  | .endsWith => "ENDS WITH"
  | .contains => "CONTAINS"

def Arithmetic.text : Arithmetic → String
  | .add => "+"
  | .sub => "-"
  | .mul => "*"
  | .div => "/"
  | .mod => "%"

/-! ## Patterns -/

def labelled (var : String) (labels : List String) : String :=
  var ++ String.join (labels.map (":" ++ ·))

def NodePatternOf.text {ε : Type} (node : NodePatternOf ε) : String :=
  "(" ++ labelled (node.var.getD "") node.labels ++ ")"

def RelPatternOf.text {ε : Type} (rel : RelPatternOf ε) : String :=
  let types := if rel.types.isEmpty then "" else ":" ++ separated "|" rel.types
  let inner := "[" ++ rel.var.getD "" ++ types ++ "]"
  match rel.direction with
  | .out => "-" ++ inner ++ "->"
  | .in => "<-" ++ inner ++ "-"
  | .both => "-" ++ inner ++ "-"

/-- The text of a pattern, without its properties and its path name. -/
def PatternOf.text {ε : Type} (p : PatternOf ε) : String :=
  p.start.text ++ String.join (p.hops.map fun hop => hop.rel.text ++ hop.node.text)

/-! ## Expressions -/

mutual

def Expr.text : Expr → String
  | .literal value => value.text
  | .parameter name => "$" ++ name
  | .var name => name
  | .property base key => base.text ++ "." ++ key
  | .list items => "[" ++ separated ", " (exprTexts items) ++ "]"
  | .map entries => "\x7b" ++ separated ", " (exprEntryTexts entries) ++ "\x7d"
  | .not inner => "NOT " ++ inner.text
  | .and l r => l.text ++ " AND " ++ r.text
  | .or l r => l.text ++ " OR " ++ r.text
  | .xor l r => l.text ++ " XOR " ++ r.text
  | .compare op l r => l.text ++ " " ++ op.text ++ " " ++ r.text
  | .stringMatch test l r => l.text ++ " " ++ test.text ++ " " ++ r.text
  | .isNull inner => inner.text ++ " IS NULL"
  | .isNotNull inner => inner.text ++ " IS NOT NULL"
  | .member item list => item.text ++ " IN " ++ list.text
  | .hasLabels var labels => labelled var labels
  | .pattern p => p.text
  | .arithmetic op l r => l.text ++ " " ++ op.text ++ " " ++ r.text
  | .call name distinct args =>
    name ++ "(" ++ (if distinct then "DISTINCT " else "") ++ separated ", " (exprTexts args) ++ ")"
  | .countStar => "count(*)"

def exprTexts : List Expr → List String
  | [] => []
  | e :: rest => e.text :: exprTexts rest

def exprEntryTexts : List (String × Expr) → List String
  | [] => []
  | (key, e) :: rest => (key ++ ": " ++ e.text) :: exprEntryTexts rest

end

/-- The name of a column: its alias, or else the text of its expression. -/
def ProjectionItem.columnName (item : ProjectionItem) : String := item.givenName.getD item.expr.text

end CypherGremlin
