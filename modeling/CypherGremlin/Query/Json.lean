import CypherGremlin.Json.Form
import CypherGremlin.Query.Basic

/-!
# Queries as JSON

The exchange form of queries.  A record is an object with a field for each of its parts, in order; a
variant is an object with one field, named for the variant; a literal has its kind under `t` and its
value under `v`.  Nothing is left out when writing: an absent part is `null`.

Reading is more lenient.  Fields that are not known are ignored; an absent optional part may be
missing, and so may a part that has a default; a record may also be an array of its parts, of which
trailing ones with a default may be missing; a variant without content may be just its name.
Everything else is refused, and so is a value in which arrays and objects are nested more than 127
deep.

* Writing: `Query.toJson`, `Clause.toJson`, `PatternOf.toJson`, `Expr.toJson`, `Literal.toJson`.
* Reading: `Query.ofJson?` and its companions.  They recurse on a bound, which is the nesting that
  is still allowed.
-/

namespace CypherGremlin

namespace Json

def tagged (kind : String) (value : Json) : Json := .object [("t", .string kind), ("v", value)]

/-- The deepest nesting that is read. -/
def maxDepth : Nat := 127

end Json

open Json

/-! ## Literals -/

mutual

def Literal.toJson : Literal → Json
  | .null => .object [("t", .string "Null")]
  | .bool b => tagged "Bool" (.bool b)
  | .int i => tagged "Int" (.int i.toInt)
  | .float x => tagged "Float" (.float x)
  | .string s => tagged "String" (.string s)
  | .list items => tagged "List" (.array (literalsToJson items))
  | .map entries => tagged "Map" (.array (literalEntriesToJson entries))

def literalsToJson : List Literal → List Json
  | [] => []
  | item :: rest => item.toJson :: literalsToJson rest

def literalEntriesToJson : List (String × Literal) → List Json
  | [] => []
  | (key, value) :: rest => .array [.string key, value.toJson] :: literalEntriesToJson rest

end

def Literal.ofParts? (read : Json → Option Literal) (kind : String) (value : Option Json) :
    Option Literal :=
  match kind, value with
  | "Null", none | "Null", some .null => some .null
  | "Bool", some j => j.asBool?.map .bool
  | "Int", some j => j.asInt64?.map .int
  | "Float", some j => j.asFloat?.map .float
  | "String", some j => j.asString?.map .string
  | "List", some j => (j.asList? read).map .list
  | "Map", some j => (j.asEntries? read).map .map
  | _, _ => none

/-- Reads a literal: an object with its kind and its value, or an array of the two. -/
def Literal.ofJson? : Nat → Json → Option Literal
  | 0, _ => none
  | bound + 1, j => do
    match ← parts? ["t", "v"] 2 j with
    | [some kind, value] => Literal.ofParts? (Literal.ofJson? bound) (← bareVariant? kind) value
    | _ => none

/-! ## Operators -/

def Comparison.names : List (String × Comparison) :=
  [("eq", .eq), ("neq", .neq), ("lt", .lt), ("lte", .lte), ("gt", .gt), ("gte", .gte)]

def Comparison.name : Comparison → String
  | .eq => "eq"
  | .neq => "neq"
  | .lt => "lt"
  | .lte => "lte"
  | .gt => "gt"
  | .gte => "gte"

def Comparison.ofJson? : Json → Option Comparison := choice? Comparison.names

def StringTest.name : StringTest → String
  | .startsWith => "starts_with"
  | .endsWith => "ends_with"
  | .contains => "contains"

def StringTest.ofJson? : Json → Option StringTest :=
  choice? [("starts_with", .startsWith), ("ends_with", .endsWith), ("contains", .contains)]

def Arithmetic.name : Arithmetic → String
  | .add => "add"
  | .sub => "sub"
  | .mul => "mul"
  | .div => "div"
  | .mod => "mod"

def Arithmetic.ofJson? : Json → Option Arithmetic :=
  choice? [("add", .add), ("sub", .sub), ("mul", .mul), ("div", .div), ("mod", .mod)]

def Direction.name : Direction → String
  | .out => "out"
  | .in => "in"
  | .both => "both"

def Direction.ofJson? : Json → Option Direction :=
  choice? [("out", .out), ("in", .in), ("both", .both)]

/-! ## Patterns, over a form of expressions -/

/-- Writes the bounds of a relationship. -/
def HopRange.toJson (range : HopRange) : Json :=
  let bound (n : Option UInt32) := orNull (n.map fun n => .int n.toNat)
  .object [("min", bound range.min), ("max", bound range.max)]

/-- Reads the bounds of a relationship.  In an array both have to be there. -/
def HopRange.ofJson? (j : Json) : Option HopRange := do
  match ← parts? ["min", "max"] 2 j with
  | [min, max] =>
    return ⟨← orDefault? none (asOptional? asUInt32?) min,
      ← orDefault? none (asOptional? asUInt32?) max⟩
  | _ => none

def NodePatternOf.ofJson? {ε : Type} (read : Json → Option ε) (j : Json) :
    Option (NodePatternOf ε) := do
  match ← parts? ["var", "labels", "properties"] 0 j with
  | [var, labels, properties] =>
    return {
      var := ← orDefault? none (asOptional? asString?) var
      labels := ← orDefault? [] (asList? asString?) labels
      properties := ← orDefault? [] (asEntries? read) properties }
  | _ => none

def RelPatternOf.ofJson? {ε : Type} (read : Json → Option ε) (j : Json) : Option (RelPatternOf ε) :=
  do
  match ← parts? ["var", "types", "direction", "properties", "length"] 0 j with
  | [var, types, direction, properties, length] =>
    return {
      var := ← orDefault? none (asOptional? asString?) var
      types := ← orDefault? [] (asList? asString?) types
      direction := ← orDefault? .out Direction.ofJson? direction
      properties := ← orDefault? [] (asEntries? read) properties
      length := ← orDefault? none (asOptional? HopRange.ofJson?) length }
  | _ => none

def HopOf.ofJson? {ε : Type} (read : Json → Option ε) (j : Json) : Option (HopOf ε) := do
  match ← parts? ["rel", "node"] 0 j with
  | [some rel, some node] =>
    return ⟨← RelPatternOf.ofJson? read rel, ← NodePatternOf.ofJson? read node⟩
  | _ => none

def PatternOf.ofJson? {ε : Type} (read : Json → Option ε) (j : Json) : Option (PatternOf ε) := do
  match ← parts? ["path", "start", "hops"] 0 j with
  | [path, some start, hops] =>
    return {
      path := ← orDefault? none (asOptional? asString?) path
      start := ← NodePatternOf.ofJson? read start
      hops := ← orDefault? [] (asList? (HopOf.ofJson? read)) hops }
  | _ => none

/-! ## Expressions -/

mutual

/-- Writes an expression. -/
def Expr.toJson : Expr → Json
  | .literal value => variant "literal" value.toJson
  | .parameter name => variant "parameter" (.string name)
  | .var name => variant "variable" (.string name)
  | .property base key => variant "property" (.array [base.toJson, .string key])
  | .list items => variant "list" (.array (exprsToJson items))
  | .map entries => variant "map" (.array (exprEntriesToJson entries))
  | .not inner => variant "not" inner.toJson
  | .and l r => variant "and" (.array [l.toJson, r.toJson])
  | .or l r => variant "or" (.array [l.toJson, r.toJson])
  | .xor l r => variant "xor" (.array [l.toJson, r.toJson])
  | .compare op l r => variant "compare" (.array [.string op.name, l.toJson, r.toJson])
  | .stringMatch test l r => variant "string_match" (.array [.string test.name, l.toJson, r.toJson])
  | .isNull inner => variant "is_null" inner.toJson
  | .isNotNull inner => variant "is_not_null" inner.toJson
  | .member item list => variant "in" (.array [item.toJson, list.toJson])
  | .hasLabels var labels => variant "has_labels" (.array [.string var, strings labels])
  | .pattern p => variant "pattern" (patternToJson p)
  | .arithmetic op l r => variant "arithmetic" (.array [.string op.name, l.toJson, r.toJson])
  | .call name distinct args =>
    variant "function"
      (.object [("name", .string name), ("distinct", .bool distinct),
      ("args", .array (exprsToJson args))])
  | .countStar => .string "count_star"

/-- Writes several expressions. -/
def exprsToJson : List Expr → List Json
  | [] => []
  | e :: rest => e.toJson :: exprsToJson rest

/-- Writes the entries of a map, or the properties of an element. -/
def exprEntriesToJson : List (String × Expr) → List Json
  | [] => []
  | (key, e) :: rest => .array [.string key, e.toJson] :: exprEntriesToJson rest

def nodeToJson : NodePatternOf Expr → Json
  | ⟨var, labels, properties⟩ =>
    .object [("var", orNull (var.map .string)), ("labels", strings labels),
      ("properties", .array (exprEntriesToJson properties))]

/-- Writes a relationship. -/
def relToJson : RelPatternOf Expr → Json
  | ⟨var, types, direction, properties, length⟩ =>
    .object [("var", orNull (var.map .string)), ("types", strings types),
      ("direction", .string direction.name), ("properties", .array (exprEntriesToJson properties)),
      ("length", orNull (length.map HopRange.toJson))]

def hopsToJson : List (HopOf Expr) → List Json
  | [] => []
  | ⟨rel, node⟩ :: rest =>
    .object [("rel", relToJson rel), ("node", nodeToJson node)] :: hopsToJson rest

def patternToJson : PatternOf Expr → Json
  | ⟨path, start, hops⟩ =>
    .object [("path", orNull (path.map .string)), ("start", nodeToJson start),
      ("hops", .array (hopsToJson hops))]

end

def both? {α : Type} (read : Json → Option α) (j : Json) : Option (α × α) := do
  let (a, b) ← j.asPair?
  return (← read a, ← read b)

def operation? {ο α : Type} (readOp : Json → Option ο) (read : Json → Option α) (j : Json) :
    Option (ο × α × α) := do
  let (op, a, b) ← j.asTriple?
  return (← readOp op, ← read a, ← read b)

/-- Reads an expression of the given variant from its content, with a reader for the expressions
inside it. -/
def Expr.ofContent? (bound : Nat) (read : Json → Option Expr) (tag : String) (content : Json) :
    Option Expr :=
  match tag with
  | "literal" => (Literal.ofJson? bound content).map .literal
  | "parameter" => content.asString?.map .parameter
  | "variable" => content.asString?.map .var
  | "property" => do
    let (base, key) ← content.asPair?
    return .property (← read base) (← key.asString?)
  | "list" => (content.asList? read).map .list
  | "map" => (content.asEntries? read).map .map
  | "not" => (read content).map .not
  | "and" => (both? read content).map fun (l, r) => .and l r
  | "or" => (both? read content).map fun (l, r) => .or l r
  | "xor" => (both? read content).map fun (l, r) => .xor l r
  | "compare" => (operation? Comparison.ofJson? read content).map fun (op, l, r) => .compare op l r
  | "string_match" =>
    (operation? StringTest.ofJson? read content).map fun (test, l, r) => .stringMatch test l r
  | "is_null" => (read content).map .isNull
  | "is_not_null" => (read content).map .isNotNull
  | "in" => (both? read content).map fun (l, r) => .member l r
  | "has_labels" => do
    let (name, labels) ← content.asPair?
    return .hasLabels (← name.asString?) (← labels.asList? asString?)
  | "pattern" => (PatternOf.ofJson? read content).map .pattern
  | "arithmetic" =>
    (operation? Arithmetic.ofJson? read content).map fun (op, l, r) => .arithmetic op l r
  | "function" => do
    match ← parts? ["name", "distinct", "args"] 0 content with
    | [some name, distinct, args] =>
      return .call (← name.asString?) (← orDefault? false asBool? distinct)
        (← orDefault? [] (asList? read) args)
    | _ => none
  | "count_star" => match content with
    | .null => some .countStar
    | _ => none
  | _ => none

/-- Reads an expression. -/
def Expr.ofJson? : Nat → Json → Option Expr
  | 0, _ => none
  | bound + 1, j =>
    match variant? j with
    | some ("count_star", none) => some .countStar
    | some (tag, some content) => Expr.ofContent? bound (Expr.ofJson? bound) tag content
    | _ => none

/-! ## Clauses -/

/-- Writes a column. -/
def ProjectionItem.toJson (item : ProjectionItem) : Json :=
  .object [("expr", item.expr.toJson), ("alias", orNull (item.givenName.map .string))]

/-- Reads a column. -/
def ProjectionItem.ofJson? (bound : Nat) (j : Json) : Option ProjectionItem := do
  match ← parts? ["expr", "alias"] 0 j with
  | [some expr, name] =>
    return ⟨← Expr.ofJson? bound expr, ← orDefault? none (asOptional? asString?) name⟩
  | _ => none

def SortItem.toJson (item : SortItem) : Json :=
  .object [("expr", item.expr.toJson), ("descending", .bool item.descending)]

def SortItem.ofJson? (bound : Nat) (j : Json) : Option SortItem := do
  match ← parts? ["expr", "descending"] 0 j with
  | [some expr, descending] =>
    return ⟨← Expr.ofJson? bound expr, ← orDefault? false asBool? descending⟩
  | _ => none

def Projection.toJson (p : Projection) : Json :=
  .object [("distinct", .bool p.distinct), ("star", .bool p.star),
    ("items", .array (p.items.map ProjectionItem.toJson)),
    ("order_by", .array (p.orderBy.map SortItem.toJson)),
    ("skip", orNull (p.skip.map Expr.toJson)), ("limit", orNull (p.limit.map Expr.toJson)),
    ("where", orNull (p.condition.map Expr.toJson))]

def Projection.ofJson? (bound : Nat) (j : Json) : Option Projection := do
  let expr? := orDefault? none (asOptional? (Expr.ofJson? bound))
  match ← parts? ["distinct", "star", "items", "order_by", "skip", "limit", "where"] 0 j with
  | [distinct, star, items, orderBy, skip, limit, condition] =>
    return {
      distinct := ← orDefault? false asBool? distinct
      star := ← orDefault? false asBool? star
      items := ← orDefault? [] (asList? (ProjectionItem.ofJson? bound)) items
      orderBy := ← orDefault? [] (asList? (SortItem.ofJson? bound)) orderBy
      skip := ← expr? skip
      limit := ← expr? limit
      condition := ← expr? condition }
  | _ => none

def Assignment.toJson (a : Assignment) : Json :=
  .object [("var", .string a.var), ("key", .string a.key), ("value", a.value.toJson)]

def Assignment.ofJson? (bound : Nat) (j : Json) : Option Assignment := do
  match ← parts? ["var", "key", "value"] 0 j with
  | [some var, some key, some value] =>
    return ⟨← var.asString?, ← key.asString?, ← Expr.ofJson? bound value⟩
  | _ => none

def PropertyRef.toJson (r : PropertyRef) : Json :=
  .object [("var", .string r.var), ("key", .string r.key)]

def PropertyRef.ofJson? (j : Json) : Option PropertyRef := do
  match ← parts? ["var", "key"] 0 j with
  | [some var, some key] => return ⟨← var.asString?, ← key.asString?⟩
  | _ => none

def Clause.toJson : Clause → Json
  | .match isOptional patterns condition =>
    variant "match"
      (.object [("optional", .bool isOptional), ("patterns", .array (patterns.map patternToJson)),
      ("where", orNull (condition.map Expr.toJson))])
  | .unwind expr name => variant "unwind" (.object [("expr", expr.toJson), ("alias", .string name)])
  | .with projection => variant "with" projection.toJson
  | .return projection => variant "return" projection.toJson
  | .create patterns =>
    variant "create" (.object [("patterns", .array (patterns.map patternToJson))])
  | .merge pattern => variant "merge" (.object [("pattern", patternToJson pattern)])
  | .set items => variant "set" (.object [("items", .array (items.map Assignment.toJson))])
  | .remove items => variant "remove" (.object [("items", .array (items.map PropertyRef.toJson))])
  | .delete detach targets =>
    variant "delete"
      (.object [("detach", .bool detach), ("targets", .array (targets.map Expr.toJson))])

def Clause.ofJson? (bound : Nat) (j : Json) : Option Clause := do
  let pattern? := PatternOf.ofJson? (Expr.ofJson? bound)
  match variant? j with
  | some ("match", some body) =>
    match ← parts? ["optional", "patterns", "where"] 0 body with
    | [isOptional, some patterns, condition] =>
      return .match (← orDefault? false asBool? isOptional) (← patterns.asList? pattern?)
        (← orDefault? none (asOptional? (Expr.ofJson? bound)) condition)
    | _ => none
  | some ("unwind", some body) =>
    match ← parts? ["expr", "alias"] 0 body with
    | [some expr, some name] => return .unwind (← Expr.ofJson? bound expr) (← name.asString?)
    | _ => none
  | some ("with", some body) => (Projection.ofJson? bound body).map .with
  | some ("return", some body) => (Projection.ofJson? bound body).map .return
  | some ("create", some body) =>
    match ← parts? ["patterns"] 0 body with
    | [some patterns] => return .create (← patterns.asList? pattern?)
    | _ => none
  | some ("merge", some body) =>
    match ← parts? ["pattern"] 0 body with
    | [some pattern] => return .merge (← pattern? pattern)
    | _ => none
  | some ("set", some body) =>
    match ← parts? ["items"] 0 body with
    | [some items] => return .set (← items.asList? (Assignment.ofJson? bound))
    | _ => none
  | some ("remove", some body) =>
    match ← parts? ["items"] 0 body with
    | [some items] => return .remove (← items.asList? PropertyRef.ofJson?)
    | _ => none
  | some ("delete", some body) =>
    match ← parts? ["detach", "targets"] 0 body with
    | [some detach, some targets] =>
      return .delete (← detach.asBool?) (← targets.asList? (Expr.ofJson? bound))
    | _ => none
  | _ => none

def Query.toJson (q : Query) : Json := .object [("clauses", .array (q.clauses.map Clause.toJson))]

/-- Reads with a bound on the nesting, and refuses what is nested deeper. -/
def Json.within? {α : Type} (read : Nat → Json → Option α) (j : Json) : Option α :=
  if j.depth ≤ maxDepth then read (maxDepth + 1) j else none

def Query.ofJson? (j : Json) : Option Query :=
  j.within? fun bound j => do
    match ← parts? ["clauses"] 0 j with
    | [some clauses] => return ⟨← clauses.asList? (Clause.ofJson? bound)⟩
    | _ => none

end CypherGremlin
