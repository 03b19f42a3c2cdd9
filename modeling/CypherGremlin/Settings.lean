import CypherGremlin.Dialect.Basic
import CypherGremlin.Program.Basic
import CypherGremlin.Toml.Parser

/-!
# Settings

A settings file names a dialect and a format:

    [translator]
    flavor = "cosmosdb"

    [output]
    format = "bytecode"

Either may be missing, and anything else in the file is ignored.  `Settings.ofText` reads a file and
`Settings.text` writes one that reads back the same.
-/

namespace CypherGremlin

structure Settings where
  dialect : DialectName := .gremlin
  format : Format := .groovy
deriving DecidableEq, Repr, Inhabited

namespace Settings

/-- The text under a key of a section.  Either may be missing; a section is a table, and what is
under the key a string. -/
def entry? (root : TomlTable) (sectionName key : String) : Option (Option String) :=
  match Table.get? root.entries sectionName with
  | none => some none
  | some (.table _ entries) =>
    match Table.get? entries key with
    | none => some none
    | some (.string text) => some (some text)
    | some _ => none
  | some _ => none

/-- The dialect and the format that a text names, as they stand in it. -/
def names? (text : String) : Option (Option String × Option String) := do
  let root ← Toml.parse? text
  return (← entry? root "translator" "flavor", ← entry? root "output" "format")

/-- The settings with the given names.  The dialect is looked up first. -/
def ofNames (dialect format : Option String) : Except SettingsFault Settings := do
  let dialect ← match dialect with
    | some name => DialectName.ofText name
    | none => .ok .gremlin
  let format ← match format with
    | some name => Format.ofText name
    | none => .ok .groovy
  return { dialect, format }

/-- The settings of a text.  The path only serves to say where it is from. -/
def ofText (path text : String) : Except SettingsFault Settings :=
  match names? text with
  | none => .error (.malformed path)
  | some (dialect, format) => ofNames dialect format

def text (settings : Settings) : String :=
  "[translator]\nflavor = \"" ++ settings.dialect.text ++ "\"\n\n[output]\nformat = \"" ++
    settings.format.text ++ "\"\n"

end Settings

end CypherGremlin
