import CypherGremlin.CommandLine.Screen
import CypherGremlin.Settings

/-!
# Arguments

The command line has a command and options, some before and some after the command.  The words are
taken one by one: `Intake.step` says what a word does to what has been read, and `Request.ofWords`
takes all of them and decides between the places where a thing was said.

* A word that begins with a hyphen is an option, except a single hyphen, which is an ordinary word.
* The value of an option follows it, after an equals sign or as the next word; that word cannot be
  an option.
* An option can be given once before and once after the command; what is said after it counts.
* After two hyphens all words are ordinary; there is no such place before the command.
-/

namespace CypherGremlin

/-! ## Commands and options -/

inductive CommandName where
  | compile
  | dialects
  | symbols
deriving DecidableEq, Repr

namespace CommandName

def text : CommandName → String
  | compile => "translate"
  | dialects => "flavors"
  | symbols => "functions"

def all : List CommandName := [compile, dialects, symbols]

end CommandName

/-- An option that has no value. -/
inductive Switch where
  | verbose
  | fingerprint
  | columns
deriving DecidableEq, Repr

/-- An option that has a value. -/
inductive Choice where
  | config
  | color
  | dialect
  | format
deriving DecidableEq, Repr

inductive CommandOption where
  | switch (s : Switch)
  | choice (c : Choice)
  | version
  | help
deriving DecidableEq, Repr

namespace CommandOption

def ofName? (command : Option CommandName) (name : String) : Option CommandOption :=
  match name, command with
  | "config", _ => some (.choice .config)
  | "color", _ => some (.choice .color)
  | "verbose", _ => some (.switch .verbose)
  | "help", _ => some .help
  | "version", none => some .version
  | "flavor", some .compile => some (.choice .dialect)
  | "format", some .compile => some (.choice .format)
  | "fingerprint", some .compile => some (.switch .fingerprint)
  | "columns", some .compile => some (.switch .columns)
  | _, _ => none

def ofLetter? (command : Option CommandName) (letter : Char) : Option CommandOption :=
  match letter, command with
  | 'v', _ => some (.switch .verbose)
  | 'h', _ => some .help
  | 'V', none => some .version
  | _, _ => none

end CommandOption

/-! ## What has been given -/

/-- Why the words are not carried out. -/
inductive Stop where
  /-- They are no arguments of the command line. -/
  | misuse
  | version
  | help
deriving DecidableEq, Repr

structure Given where
  config : Option String := none
  color : Option ColorChoice := none
  dialect : Option DialectName := none
  format : Option Format := none
  switches : List Switch := []
  /-- The ordinary word. -/
  input : Option String := none
deriving DecidableEq, Repr

namespace Given

/-- A value for what has none yet. -/
def once {α : Type} (old : Option α) (new : Option α) : Except Stop (Option α) :=
  match old, new with
  | none, some value => .ok (some value)
  | _, _ => .error .misuse

def choose (given : Given) (choice : Choice) (value : String) : Except Stop Given :=
  match choice with
  | .config => do
    return { given with config := ← once given.config (if value = "" then none else some value) }
  | .color => do
    return { given with color := ← once given.color (ColorChoice.all.find? (·.text = value)) }
  | .dialect => do
    return { given with dialect := ← once given.dialect (DialectName.all.find? (·.text = value)) }
  | .format => do
    return { given with format := ← once given.format (Format.all.find? (·.text = value)) }

/-- Takes an option without a value into account. -/
def turnOn (given : Given) (switch : Switch) : Except Stop Given :=
  if switch ∈ given.switches then .error .misuse
  else .ok { given with switches := switch :: given.switches }

def takeWord (given : Given) (word : String) : Except Stop Given := do
  return { given with input := ← once given.input (some word) }

end Given

/-! ## Word by word -/

/-- What has been read of the words. -/
structure Intake where
  /-- What stands before the command. -/
  before : Given := {}
  command : Option (CommandName × Given) := none
  /-- The option whose value comes next. -/
  awaiting : Option Choice := none
  /-- Only ordinary words follow. -/
  isPlain : Bool := false

namespace Intake

def commandName? (intake : Intake) : Option CommandName := intake.command.map (·.1)

def change (intake : Intake) (f : Given → Except Stop Given) : Except Stop Intake :=
  match intake.command with
  | none => do return { intake with before := ← f intake.before }
  | some (name, after) => do return { intake with command := some (name, ← f after) }

/-- Takes an option into account, with the value that stands behind its equals sign. -/
def takeOption (intake : Intake) (option : CommandOption) (value : Option String) :
    Except Stop Intake :=
  match option, value with
  | .choice choice, some value => intake.change (·.choose choice value)
  | .choice choice, none => .ok { intake with awaiting := some choice }
  | .switch switch, none => intake.change (·.turnOn switch)
  | .version, none => .error .version
  | .help, none => .error .help
  | .switch _, some _ | .version, some _ | .help, some _ => .error .misuse

/-- Takes an option by name into account: what follows the two hyphens. -/
def takeNamed (intake : Intake) (text : List Char) : Except Stop Intake :=
  let name := text.takeWhile (· ≠ '=')
  let value := match text.dropWhile (· ≠ '=') with
    | [] => none
    | _ :: value => some (String.ofList value)
  match CommandOption.ofName? intake.commandName? (String.ofList name) with
  | some option => intake.takeOption option value
  | none => .error .misuse

def takeLetter (intake : Intake) (letter : Char) : Except Stop Intake :=
  match CommandOption.ofLetter? intake.commandName? letter with
  | some option => intake.takeOption option none
  | none => .error .misuse

/-- Takes an ordinary word into account.  The first one is the command, and only compiling takes
another. -/
def takeWord (intake : Intake) (word : String) : Except Stop Intake :=
  match intake.command with
  | none =>
    match CommandName.all.find? (·.text = word) with
    | some name => .ok { intake with command := some (name, {}) }
    | none => .error .misuse
  | some (.compile, _) => intake.change (·.takeWord word)
  | some (.dialects, _) | some (.symbols, _) => .error .misuse

/-- Whether a word is an option, or the two hyphens that end them. -/
def isOption (word : String) : Bool :=
  match word.toList with
  | '-' :: _ :: _ => true
  | _ => false

def step (intake : Intake) (word : String) : Except Stop Intake :=
  if intake.isPlain then intake.takeWord word
  else
    match intake.awaiting, word.toList with
    | some choice, _ =>
      if isOption word then .error .misuse
      else { intake with awaiting := none }.change (·.choose choice word)
    | none, ['-', '-'] =>
      if intake.command.isNone then .error .misuse else .ok { intake with isPlain := true }
    | none, '-' :: '-' :: text => intake.takeNamed text
    | none, '-' :: letter :: letters => (letter :: letters).foldlM takeLetter intake
    | none, _ => intake.takeWord word

end Intake

/-! ## Requests -/

structure CompileRequest where
  config : Option String
  /-- The file with the query; a hyphen is the standard input. -/
  input : String
  dialect : Option DialectName
  format : Option Format
  withFingerprint : Bool
  withColumns : Bool
deriving DecidableEq, Repr

inductive Command where
  | compile (request : CompileRequest)
  | dialects
  | symbols
deriving DecidableEq, Repr

/-- A command and how its output is to look. -/
structure Request where
  color : ColorChoice
  command : Command
deriving DecidableEq, Repr

namespace Request

/-- The environment variable that names a settings file. -/
def configVariable : String := "CYPHER_TRAVERSE_CONFIG"

/-- The settings file: what is said after the command comes first, then what is said before it, then
the environment variable.  The variable is looked at wherever the option is missing, and it may not
be empty. -/
def config (before after : Given) (fromEnvironment : Option String) : Except Stop (Option String) :=
  if fromEnvironment = some "" ∧ (before.config.isNone ∨ after.config.isNone) then .error .misuse
  else .ok (after.config <|> before.config <|> fromEnvironment)

/-- The request that has been read, once all words are taken. -/
def ofIntake (intake : Intake) (fromEnvironment : Option String) : Except Stop Request := do
  if intake.awaiting.isSome then throw .misuse
  match intake.command with
  | none => throw .misuse
  | some (name, after) =>
    let config ← config intake.before after fromEnvironment
    let color := (after.color <|> intake.before.color).getD .auto
    match name with
    | .dialects => return ⟨color, .dialects⟩
    | .symbols => return ⟨color, .symbols⟩
    | .compile =>
      return ⟨color, .compile {
        config
        input := after.input.getD "-"
        dialect := after.dialect
        format := after.format
        withFingerprint := after.switches.contains .fingerprint
        withColumns := after.switches.contains .columns }⟩

def ofWords (words : List String) (fromEnvironment : Option String) : Except Stop Request := do
  ofIntake (← words.foldlM Intake.step {}) fromEnvironment

end Request

end CypherGremlin
