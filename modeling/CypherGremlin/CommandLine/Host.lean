import CypherGremlin.Table

/-!
# The surroundings of the command line

The command line reads files, its standard input and environment variables.  A `Host` provides them
in any monad, so that the commands are pure functions of what they are given.  `Memory` is a host
without side effects: files that are held in a list.
-/

namespace CypherGremlin

/-! ## Hosts -/

inductive FileFault where
  | absent
  /-- The path goes through a file. -/
  | notFolder
  | folder
  /-- The file may not be read. -/
  | denied
  /-- The content is not UTF-8. -/
  | notText
  /-- Anything else. -/
  | other (text : String)
deriving DecidableEq, Repr

/-- The wording of a cause. -/
def FileFault.message : FileFault → String
  | absent => "No such file or directory (os error 2)"
  | notFolder => "Not a directory (os error 20)"
  | folder => "Is a directory (os error 21)"
  | denied => "Permission denied (os error 13)"
  | notText => "stream did not contain valid UTF-8"
  | other text => text

/-- What the command line needs from its surroundings. -/
structure Host (m : Type → Type) where
  readFile : String → m (Except FileFault String)
  readInput : m (Except FileFault String)
  /-- The value of an environment variable. -/
  lookup? : String → m (Option String)
  isTerminal : m Bool

/-! ## Files in memory -/

/-- Surroundings that are given as data. -/
structure Memory where
  home : List String
  files : List (List String × String) := []
  input : String := ""
  environment : Table String String := []

namespace Memory

/-- The names on a path.  Empty ones and single dots lead nowhere. -/
def pathNames (path : String) : List String :=
  ((path.toList.splitOn '/').map String.ofList).filter fun name => name != "" && name != "."

/-- There is a folder at the given place: the working folder, the place of a file, or one above
them. -/
def isFolder (memory : Memory) (place : List String) : Bool :=
  place.isPrefixOf memory.home ||
    memory.files.any fun (names, _) => place.isPrefixOf names && place.length < names.length

/-- Follows the names of a path from a place.  All places but the last have to be folders. -/
def follow (memory : Memory) (place : List String) : List String → Except FileFault (List String)
  | [] => .ok place
  | name :: rest =>
    if memory.isFolder place then follow memory (if name = ".." then place.dropLast else place ++
      [name]) rest
    else if Table.has memory.files place then .error .notFolder
    else .error .absent

/-- The content of the file at a path.  A path that ends with a slash leads to a folder. -/
def read (memory : Memory) (path : String) : Except FileFault String := do
  if path = "" then throw .absent
  let start := if path.startsWith "/" then [] else memory.home
  let place ← memory.follow start (pathNames path)
  if memory.isFolder place then throw .folder
  match Table.get? memory.files place with
  | none => throw .absent
  | some text => if path.endsWith "/" || path.endsWith "/." then throw .notFolder else return text

/-- The host of the given surroundings.  Nothing is a terminal. -/
def host (memory : Memory) : Host Id where
  readFile := memory.read
  readInput := .ok memory.input
  lookup? := Table.get? memory.environment
  isTerminal := false

end Memory

end CypherGremlin
