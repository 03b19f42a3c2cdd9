import CypherGremlin.CommandLine.Run

/-!
# The program

The command line on the machine's own files, inputs and outputs.
-/

namespace CypherGremlin

def FileFault.ofError : IO.Error → FileFault
  | .noFileOrDirectory _ _ _ => .absent
  | .inappropriateType _ 21 _ => .folder
  | .inappropriateType _ _ _ => .notFolder
  | .permissionDenied _ _ _ => .denied
  | fault => .other (toString fault)

def textOfBytes : Except IO.Error ByteArray → Except FileFault String
  | .error fault => .error (FileFault.ofError fault)
  | .ok bytes =>
    match String.fromUTF8? bytes with
    | some text => .ok text
    | none => .error .notText

def Host.machine : Host IO where
  readFile path := do return textOfBytes (← (IO.FS.readBinFile path).toBaseIO)
  readInput := do return textOfBytes (← (← IO.getStdin).readBinToEnd.toBaseIO)
  lookup? name := IO.getEnv name
  isTerminal := do (← IO.getStdout).isTty

end CypherGremlin

open CypherGremlin

/-- Carries out the arguments. -/
def main (words : List String) : IO UInt32 := do
  let outcome ← CommandLine.run Host.machine words
  IO.print outcome.output
  IO.eprint outcome.errors
  return outcome.exit
