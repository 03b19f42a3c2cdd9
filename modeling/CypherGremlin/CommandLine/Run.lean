import CypherGremlin.CommandLine.Arguments
import CypherGremlin.CommandLine.Host
import CypherGremlin.Compiler
import CypherGremlin.Json.Parser
import CypherGremlin.Query.Json

/-!
# Commands

`CommandLine.run` carries out the arguments of the command line on a host.  What comes of it is an
`Outcome`: the exit code and what goes to the two outputs.  The exit code is 0 if the command
succeeded, 1 if it failed, 2 if the arguments make no sense, and 101 if checked arithmetic stopped
it.
-/

namespace CypherGremlin

/-- What comes of a run. -/
structure Outcome where
  exit : UInt32
  output : String := ""
  errors : String := ""
deriving DecidableEq, Repr

inductive CommandFault where
  | unreadable (path : String) (fault : FileFault)
  | malformed
  /-- The query has no program, or the settings cannot be read. -/
  | failed (failure : Failure)
deriving DecidableEq, Repr

/-- The wording of a cause. -/
def CommandFault.message : CommandFault → String
  | unreadable path fault => "failed to read " ++ path ++ ": " ++ fault.message
  | malformed => "invalid query AST: not a query"
  | failed failure => failure.withCode

def CommandFault.exit : CommandFault → UInt32
  | failed (.query (.overflow _)) => 101
  | _ => 1

namespace CommandLine

variable {m : Type → Type} [Monad m]

/-! ## Settings -/

def below (folder path : String) : String :=
  if folder.endsWith "/" then folder ++ path else folder ++ "/" ++ path

/-- The folder for settings files: the one that the environment names, if it is an absolute path, or
else one in the home folder. -/
def settingsFolder? (configHome home : Option String) : Option String :=
  match configHome.filter (·.startsWith "/") with
  | some folder => some folder
  | none => (home.filter (· ≠ "")).map (below · ".config")

def defaultPath? (configHome home : Option String) : Option String :=
  (settingsFolder? configHome home).map (below · "cypher-traverse/config.toml")

def settingsOfFile (path : String) : Except FileFault String → Except SettingsFault Settings
  | .ok text => Settings.ofText path text
  | .error fault => .error (.unreadable path fault.message)

def settingsOfDefault (path : String) : Except FileFault String → Except SettingsFault Settings
  | .error .absent | .error .notFolder => .ok {}
  | found => settingsOfFile path found

def loadSettings (host : Host m) (config : Option String) : m (Except SettingsFault Settings) := do
  match config with
  | some path => return settingsOfFile path (← host.readFile path)
  | none =>
    match defaultPath? (← host.lookup? "XDG_CONFIG_HOME") (← host.lookup? "HOME") with
    | some path => return settingsOfDefault path (← host.readFile path)
    | none => return .ok {}

/-! ## Compiling -/

def compilerOf (request : CompileRequest) (settings : Settings) : Compiler where
  dialect := Dialect.ofName (request.dialect.getD settings.dialect)
  format := request.format.getD settings.format

def columnsLine (columns : List Column) : String :=
  "columns: " ++ separated ", " (columns.map fun column => column.name ++ " (" ++
    column.kind.title ++ ")")

/-- What is shown of a program. -/
def compiledLines (request : CompileRequest) (compiled : Compiled) : List String :=
  [compiled.program.render] ++
    (if request.withFingerprint then ["fingerprint: " ++ compiled.program.fingerprintText]
    else []) ++ (if request.withColumns then [columnsLine compiled.statement.columns] else [])

def compileText (request : CompileRequest) (settings : Settings) (text : String) :
    Except CommandFault (List String) :=
  match (Json.parse? text).bind Query.ofJson? with
  | none => .error .malformed
  | some q =>
    ((compilerOf request settings).compile q).mapError .failed |>.map (compiledLines request)

def readQuery (host : Host m) (input : String) : m (Except CommandFault String) := do
  if input = "-" then return (← host.readInput).mapError (.unreadable "stdin")
  else return (← host.readFile input).mapError (.unreadable input)

/-- Compiles a query.  The settings are read first, even where they are overridden. -/
def compile (host : Host m) (request : CompileRequest) : m (Except CommandFault (List String)) := do
  match ← loadSettings host request.config with
  | .error fault => return .error (.failed (.settings fault))
  | .ok settings => return (← readQuery host request.input).bind (compileText request settings)

/-! ## Lists -/

def passNames (passes : List Pass) : String :=
  if passes.isEmpty then "(none)" else separated ", " (passes.map (·.name))

def dialectLines (screen : Screen) (name : DialectName) : List String :=
  let dialect := Dialect.ofName name
  screen.sectionLines name.text [
    ("description", name.description),
    ("statement passes", passNames dialect.onProgram),
    ("traversal passes", passNames dialect.onTraversals)]

def symbolLines (screen : Screen) (registry : Registry) : List String :=
  screen.listLines "predicates" (registry.predicates.map fun p =>
    p.name ++ " -> " ++ p.symbol ++ " (arity " ++ toString p.arity ++ ")") ++
  screen.listLines "functions" (registry.functions.map fun f =>
    f.name ++ " -> " ++ f.symbol ++ " (" ++ f.output.title ++ ")")

/-! ## Requests -/

/-- Carries out a command.  The result is the lines for the standard output. -/
def carryOut (host : Host m) (screen : Screen) : Command → m (Except CommandFault (List String))
  | .compile request => compile host request
  | .dialects => return .ok (DialectName.all.flatMap (dialectLines screen))
  | .symbols => return .ok (symbolLines screen Registry.standard)

def screenFor (host : Host m) : ColorChoice → m Screen
  | .always => return ⟨true⟩
  | .never => return ⟨false⟩
  | .auto => do
    let isTerminal ← host.isTerminal
    let plain ← host.lookup? "NO_COLOR"
    return ⟨isTerminal && plain.isNone⟩

def versionLine : String := "cypher-traverse 0.1.0"

def usageLines : List String := [
  "Usage: cypher-traverse [OPTIONS] <COMMAND>",
  "",
  "Commands:",
  "  translate [AST]  Compile a query, from a JSON file or - for the standard input",
  "  flavors          List the dialects and their passes",
  "  functions        List the custom predicates and functions",
  "",
  "Options:",
  "  --config <FILE>  Settings file",
  "  --color <WHEN>   auto, always or never",
  "  -v, --verbose    Accepted without effect",
  "  -h, --help       Print help",
  "  -V, --version    Print version",
  "",
  "Options of translate:",
  "  --flavor <NAME>  gremlin, cosmosdb, neptune or empty",
  "  --format <NAME>  groovy or bytecode",
  "  --fingerprint    Print the fingerprint of the program",
  "  --columns        Print the columns of the result"]

/-- What comes of arguments that are not carried out. -/
def Outcome.ofStop : Stop → Outcome
  | .misuse => { exit := 2, errors := textOfLines usageLines }
  | .version => { exit := 0, output := textOfLines [versionLine] }
  | .help => { exit := 0, output := textOfLines usageLines }

def Outcome.ofResult (screen : Screen) : Except CommandFault (List String) → Outcome
  | .ok lines => { exit := 0, output := textOfLines lines }
  | .error fault => { exit := fault.exit, errors := textOfLines [screen.errorLine fault.message] }

/-- Carries out the arguments of the command line. -/
def run (host : Host m) (words : List String) : m Outcome := do
  match Request.ofWords words (← host.lookup? Request.configVariable) with
  | .error stop => return Outcome.ofStop stop
  | .ok request =>
    let screen ← screenFor host request.color
    return Outcome.ofResult screen (← carryOut host screen request.command)

end CommandLine

end CypherGremlin
