import CypherGremlin.Table

/-!
# Settings tables

The part of TOML that a settings file needs: tables of strings, integers, truth values and tables.
A table can come about in four ways, and they restrict each other: a table that a header opened
cannot be opened again, nor be extended by dotted keys; a table that dotted keys made cannot be
opened by a header; an inline table is closed.  `TomlTable.assign` and `TomlTable.openAt` enforce
this.
-/

namespace CypherGremlin

inductive TableOrigin where
  | opened
  /-- As the parent of a table that has a header. -/
  | implied
  | dotted
  /-- As a value. -/
  | inline
deriving DecidableEq, Repr

/-- A value. -/
inductive Toml where
  | string (s : String)
  | integer (i : Int)
  | boolean (b : Bool)
  | table (origin : TableOrigin) (entries : List (String × Toml))
deriving Inhabited

/-- A table: how it came about, and its entries. -/
structure TomlTable where
  origin : TableOrigin
  entries : List (String × Toml)

namespace TomlTable

def empty (origin : TableOrigin) : TomlTable := ⟨origin, []⟩

def toToml (table : TomlTable) : Toml := .table table.origin table.entries

/-- Changes the table at the end of a path.  Tables that are missing on the way come about in the
given way, and those that are there must be of an origin that may be entered. -/
def changeAt (missing : TableOrigin) (enter : TableOrigin → Bool)
    (change : TomlTable → Option TomlTable) : List String → TomlTable → Option TomlTable
  | [], table => change table
  | key :: rest, table => do
    let child ← match Table.get? table.entries key with
      | none => some (empty missing)
      | some (.table origin entries) => if enter origin then some ⟨origin, entries⟩ else none
      | some _ => none
    let changed ← changeAt missing enter change rest child
    return { table with entries := Table.put table.entries key changed.toToml }

/-- Dotted keys may enter a table that no header opened. -/
def dottedEnters : TableOrigin → Bool
  | .implied | .dotted => true
  | .opened | .inline => false

def headerEnters : TableOrigin → Bool
  | .opened | .implied | .dotted => true
  | .inline => false

def insertNew (key : String) (value : Toml) (table : TomlTable) : Option TomlTable :=
  if Table.has table.entries key then none
  else some { table with entries := table.entries ++ [(key, value)] }

/-- Adds an entry under a dotted key. -/
def assign (path : List String) (value : Toml) (table : TomlTable) : Option TomlTable := do
  let last ← path.getLast?
  let parents := path.dropLast
  changeAt .dotted dottedEnters
    (fun parent => if parents.isEmpty || parent.origin = .dotted then insertNew last value parent
    else none) parents table

def openAt (path : List String) (table : TomlTable) : Option TomlTable := do
  let last ← path.getLast?
  changeAt .implied headerEnters
    (fun parent =>
      match Table.get? parent.entries last with
      | none => insertNew last (empty .opened).toToml parent
      | some (.table .implied entries) =>
        some { parent with entries := Table.put parent.entries last (.table .opened entries) }
      | some _ => none)
    path.dropLast table

end TomlTable

end CypherGremlin
