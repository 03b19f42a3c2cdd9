import CypherGremlin.Text.Basic

/-!
# What can go wrong

Each stage of the library has its own type of causes, so that the type of a function says what it
can refuse:

* `QueryFault`: a query cannot be lowered, or its traversal does not fit a dialect;
* `EmissionFault`: a traversal cannot be written as a program;
* `RowFault`: a row of an engine is not what the columns promise;
* `EngineFault`: the engine reported an error;
* `SettingsFault`: the settings cannot be read.

`Failure` is any of them.  A cause carries what it is about; its wording is in one `message`
function, and its short name in one `code` function.
-/

namespace CypherGremlin

/-! ## Queries -/

inductive QueryFault where
  | unsupported (construct : String)
  /-- A text of the query that begins like an encoded token. -/
  | reservedText (value context : String)
  | unknownVariable (name context : String)
  | undefinedLabel (label : String)
  | customSymbols (names : List String)
  | invalidArgument (context reason : String)
  | invalidQuery (reason : String)
  /-- Passes that keep changing the traversal. -/
  | notConverged (dialect : String) (rounds : Nat)
  /-- A result of checked arithmetic that has more than 64 bits.  It is no answer to the caller: the
  translation stops where it is. -/
  | overflow (operation : String)
deriving DecidableEq, Repr

namespace QueryFault

/-- The short name of a cause. -/
def code : QueryFault → String
  | unsupported _ => "Unsupported"
  | reservedText _ _ => "ReservedToken"
  | unknownVariable _ _ => "UnknownVariable"
  | undefinedLabel _ => "UndefinedLabel"
  | customSymbols _ => "NoCustomFunctions"
  | invalidArgument _ _ => "InvalidArgument"
  | invalidQuery _ => "InvalidQuery"
  | notConverged _ _ => "NotConverged"
  | overflow _ => "panic"

/-- The wording of a cause. -/
def message : QueryFault → String
  | unsupported construct => "unsupported construct: " ++ construct
  | reservedText value context => context ++ " '" ++ value ++ "' uses the reserved token prefix"
  | unknownVariable name context => "unknown variable '" ++ name ++ "' referenced in " ++ context
  | undefinedLabel label => "step label '" ++ label ++ "' referenced before it was introduced"
  | customSymbols names =>
    "Custom functions and predicates are not supported on target implementation: " ++
      separated ", " names
  | invalidArgument context reason => "invalid argument for " ++ context ++ ": " ++ reason
  | invalidQuery reason => "invalid query: " ++ reason
  | notConverged dialect rounds =>
    "flavor '" ++ dialect ++ "' did not reach a fixed point after " ++ toString rounds ++ " rounds"
  | overflow operation => "attempt to " ++ operation ++ " with overflow"

end QueryFault

/-! ## Programs -/

/-- Why a traversal has no program. -/
inductive EmissionFault where
  | unsupportedStep (step reason : String)
  | unknownSymbol (symbol : String)
deriving DecidableEq, Repr

namespace EmissionFault

/-- The short name of a cause. -/
def code : EmissionFault → String
  | unsupportedStep _ _ => "UnsupportedStep"
  | unknownSymbol _ => "UnknownCustomSymbol"

/-- The wording of a cause. -/
def message : EmissionFault → String
  | unsupportedStep step reason => "cannot render step '" ++ step ++ "': " ++ reason
  | unknownSymbol symbol => "custom symbol '" ++ symbol ++ "' is not registered"

end EmissionFault

/-! ## Rows -/

inductive RowFault where
  | missingColumn (column : String)
  /-- A value has another shape than its place promises. -/
  | unexpectedShape (column expected found : String)
  /-- A path does not alternate, or a relationship of it does not join its neighbours. -/
  | brokenPath (column : String) (position : Nat)
deriving DecidableEq, Repr

namespace RowFault

/-- The short name of a cause. -/
def code : RowFault → String
  | missingColumn _ => "MissingColumn"
  | unexpectedShape _ _ _ => "UnexpectedShape"
  | brokenPath _ _ => "BrokenPath"

/-- The wording of a cause. -/
def message : RowFault → String
  | missingColumn column => "raw row is missing column '" ++ column ++ "'"
  | unexpectedShape column expected found =>
    "column '" ++ column ++ "': expected " ++ expected ++ ", found " ++ found
  | brokenPath column position =>
    "column '" ++ column ++ "': broken path at position " ++ toString position

end RowFault

/-! ## Engines -/

inductive EngineFault where
  | connectedNode (text : String)
  /-- A range without end, or one that is too long. -/
  | invalidRange (text : String)
  /-- Anything else. -/
  | other (text : String)
deriving DecidableEq, Repr

namespace EngineFault

def connectedNodeName : String := "DELETE_CONNECTED_NODE"

def invalidRangeName : String := "INVALID_RANGE"

def connectedNodeText : String :=
  "Cannot delete node, because it still has relationships. To delete this node, you must first " ++
    "delete its relationships."

def invalidRangeText : String := "Invalid range argument"

/-- The short name of a cause. -/
def code : EngineFault → String
  | connectedNode _ => "DeleteConnectedNode"
  | invalidRange _ => "InvalidRange"
  | other _ => "Engine"

def message : EngineFault → String
  | connectedNode text | invalidRange text | other text => text

/-- The error that a reported text stands for, told by the phrases that occur in it. -/
def ofText (text : String) : EngineFault :=
  if mentions text "still has relationships" || mentions text connectedNodeName then
    .connectedNode text
  else if mentions text invalidRangeText || mentions text invalidRangeName then .invalidRange text
  else .other text

/-- The same error, told by its text if the engine did not say which it is. -/
def classify : EngineFault → EngineFault
  | other text => ofText text
  | fault => fault

end EngineFault

/-! ## Settings -/

inductive SettingsFault where
  | unreadable (path reason : String)
  /-- The file is not a settings file. -/
  | malformed (path : String)
  | unknownDialect (name : String)
  | unknownFormat (name : String)
deriving DecidableEq, Repr

namespace SettingsFault

/-- The short name of a cause. -/
def code : SettingsFault → String
  | unreadable _ _ => "ConfigRead"
  | malformed _ => "ConfigParse"
  | unknownDialect _ => "UnknownFlavor"
  | unknownFormat _ => "UnknownFormat"

/-- The wording of a cause. -/
def message : SettingsFault → String
  | unreadable path reason => "failed to read config " ++ path ++ ": " ++ reason
  | malformed path => "failed to parse config " ++ path ++ ": not a settings file"
  | unknownDialect name =>
    "unknown flavor '" ++ name ++ "' (expected one of: gremlin, cosmosdb, neptune, empty)"
  | unknownFormat name => "unknown output format '" ++ name ++ "' (expected groovy or bytecode)"

end SettingsFault

/-! ## Any of them -/

/-- Any cause. -/
inductive Failure where
  | query (fault : QueryFault)
  | emission (fault : EmissionFault)
  | row (fault : RowFault)
  | engine (fault : EngineFault)
  | settings (fault : SettingsFault)
deriving DecidableEq, Repr

namespace Failure

/-- The short name of a cause. -/
def code : Failure → String
  | query fault => fault.code
  | emission fault => fault.code
  | row fault => fault.code
  | engine fault => fault.code
  | settings fault => fault.code

/-- The wording of a cause. -/
def message : Failure → String
  | query fault => fault.message
  | emission fault => fault.message
  | row fault => fault.message
  | engine fault => fault.message
  | settings fault => fault.message

/-- The wording of a cause, with its short name in front. -/
def withCode (failure : Failure) : String := "[" ++ failure.code ++ "] " ++ failure.message

end Failure

end CypherGremlin
