import CypherGremlin.Json.Printer
import CypherGremlin.Row.Reading
import CypherGremlin.Statement.Basic

/-!
# Rows

A row of an engine is read against the columns of the statement: every column must be there, and a
value must be what its column promises unless it is null.
-/

namespace CypherGremlin

/-- A row that a query returns, by the names of the columns. -/
abbrev ResultRow := Table String ResultValue

def ColumnKind.promise : ColumnKind → String
  | node => "node"
  | relationship => "relationship"
  | path => "path"
  | id => "element id"
  | value => "value"

def ColumnKind.admits : ColumnKind → ResultValue → Bool
  | _, .null => true
  | .value, _ => true
  | .node, .node _ => true
  | .relationship, .relationship _ => true
  | .path, .path _ => true
  | .id, .int _ => true
  | .id, .string _ => true
  | _, _ => false

def Column.read (column : Column) (raw : Raw) : Except Misfit ResultValue := do
  let value ← raw.read.value
  if column.kind.admits value then return value
  throw (.shape column.kind.promise value.describe)

def RawRow.column (row : RawRow) (column : Column) : Except RowFault ResultValue :=
  match Table.get? row column.name with
  | none => .error (.missingColumn column.name)
  | some raw => (column.read raw).mapError (Misfit.inColumn column.name)

def RawRow.read (columns : List Column) (row : RawRow) : Except RowFault ResultRow :=
  columns.foldlM (fun result column => do
    return Table.put result column.name (← RawRow.column row column)) []

def ResultRow.text (row : ResultRow) : String :=
  (Json.object (ResultValue.fieldsToJson row)).compact

end CypherGremlin
