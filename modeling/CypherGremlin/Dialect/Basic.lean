import CypherGremlin.Dialect.Pass
import CypherGremlin.Statement.Basic
import CypherGremlin.Traversal.Equality
import CypherGremlin.Traversal.Scoping

/-!
# Dialects

Engines differ in what they understand of Gremlin.  A `Dialect` is a list of passes for every
traversal of a program and a list of passes for the program as a whole.  `Dialect.apply` runs rounds
of them until a round changes nothing, and then checks the scoping of labels again.
-/

namespace CypherGremlin

/-! ## Names -/

inductive DialectName where
  /-- An engine with all custom symbols installed. -/
  | gremlin
  | cosmosdb
  | neptune
  /-- No passes. -/
  | empty
deriving DecidableEq, Repr, Inhabited

namespace DialectName

def all : List DialectName := [gremlin, cosmosdb, neptune, empty]

def text : DialectName → String
  | gremlin => "gremlin"
  | cosmosdb => "cosmosdb"
  | neptune => "neptune"
  | empty => "empty"

def description : DialectName → String
  | gremlin => "Gremlin Server with the custom predicate and function plugin"
  | cosmosdb => "Cosmos DB: property access via properties(), native text predicates"
  | neptune => "Neptune: native text predicates, rejects custom functions"
  | empty => "no rewrites or checks"

/-- The dialect of the given name.  Blanks around it and the case of ASCII letters do not matter. -/
def ofText (text : String) : Except SettingsFault DialectName :=
  match all.find? fun name => name.text == (trimBlanks text).toLower with
  | some name => .ok name
  | none => .error (.unknownDialect text)

end DialectName

/-! ## Dialects -/

/-- What has to be done to a program for an engine. -/
structure Dialect where
  name : DialectName
  onProgram : List Pass
  /-- Passes for every traversal, which come first in each round. -/
  onTraversals : List Pass

namespace Dialect

def tidying : List Pass := [.identitySteps, .reselection, .barriers]

def gremlin : Dialect where
  name := .gremlin
  onProgram := [.unusedLabels]
  onTraversals := tidying

def cosmosdb : Dialect where
  name := .cosmosdb
  onProgram := [.unusedLabels]
  onTraversals := tidying ++ [.propertyAccess, .nativeTests]

def neptune : Dialect where
  name := .neptune
  onProgram := [.unusedLabels, .customSymbols]
  onTraversals := tidying ++ [.nativeTests]

def empty : Dialect where
  name := .empty
  onProgram := []
  onTraversals := []

def ofName : DialectName → Dialect
  | .gremlin => gremlin
  | .cosmosdb => cosmosdb
  | .neptune => neptune
  | .empty => empty

/-! ## Rounds -/

def runOnProgram (t : Traversal) (pass : Pass) : Except QueryFault Traversal :=
  match pass.action with
  | .change f => .ok (f t)
  | .check f => do
    f t
    return t

def runOnTraversals (t : Traversal) (pass : Pass) : Except QueryFault Traversal :=
  match pass.action with
  | .change f => .ok (Traversal.mapBottomUp f t)
  | .check f => do
    (Traversal.nested t).forM f
    return t

/-- Runs all passes once. -/
def round (dialect : Dialect) (t : Traversal) : Except QueryFault Traversal := do
  let t ← dialect.onTraversals.foldlM runOnTraversals t
  dialect.onProgram.foldlM runOnProgram t

def maxRounds : Nat := 8

/-- Runs at most the given number of rounds, until one changes nothing.  The result is none if all
of them did. -/
def rounds (dialect : Dialect) : Nat → Traversal → Except QueryFault (Option Traversal)
  | 0, _ => .ok none
  | n + 1, t => do
    let changed ← dialect.round t
    if Traversal.same changed t then return some changed
    dialect.rounds n changed

/-- Makes a program fit for the engine. -/
def applyTo (dialect : Dialect) (t : Traversal) : Except QueryFault Traversal := do
  match ← dialect.rounds maxRounds t with
  | none => throw (.notConverged dialect.name.text maxRounds)
  | some settled =>
    Traversal.checkLabels settled
    return settled

/-- Makes a statement fit for the engine.  Its columns stay. -/
def apply (dialect : Dialect) (statement : Statement) : Except QueryFault Statement := do
  return { statement with traversal := ← dialect.applyTo statement.traversal }

end Dialect

end CypherGremlin
