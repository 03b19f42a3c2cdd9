import CypherGremlin.Traversal.Basic

/-!
# Statements

A statement is a query in the form of a traversal, with a description of the columns that its rows
have.  The modules of this folder say which statement a query has; `Statement.OfQuery` puts them
together.
-/

namespace CypherGremlin

inductive ColumnKind where
  | node
  | relationship
  | path
  | id
  | value
deriving DecidableEq, Repr

def ColumnKind.title : ColumnKind → String
  | node => "Node"
  | relationship => "Relationship"
  | path => "Path"
  | id => "Id"
  | value => "Value"

structure Column where
  name : String
  kind : ColumnKind
deriving DecidableEq, Repr

structure Statement where
  traversal : Traversal
  columns : List Column

end CypherGremlin
