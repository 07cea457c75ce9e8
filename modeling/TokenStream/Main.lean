import Mathlib.Tactic.DeprecateTo
import TokenStream.Command.Run

/-!
The command line program, on the files, the environment and the clock of the machine. The clock is
that of `Std.Time`, which the one import from the library brings along.
-/
namespace TokenStream.Command

def lookAtFile (path : String) : IO Found := do
  try
    let contents ← IO.FS.readBinFile path
    return .file (.ofBytes contents)
  catch
    | .noFileOrDirectory _ _ reason => return .missing reason
    | e => return .unreadable (toString e)

/-- The directory part of a path, empty if there is none. -/
def directoryPart (path : String) : String :=
  let reversed := path.toList.reverse
  String.ofList ((reversed.dropWhile (· ≠ '/')).drop 1).reverse

def openLogFile (path : String) : IO (Option String) := do
  try
    let directory := directoryPart path
    if directory ≠ "" then IO.FS.createDirAll directory
    IO.FS.withFile path .append fun _ => pure ()
    return none
  catch e => return some (toString e)

/-- Lines that cannot be written are lost. -/
def appendToFile (path line : String) : IO Unit := do
  try IO.FS.withFile path .append fun handle => handle.putStrLn line
  catch _ => pure ()

/-- The time in Coordinated Universal Time, down to nanoseconds. -/
def clockTime : IO Log.Instant := do
  let now := Std.Time.DateTime.ofTimestampWithZone (← Std.Time.Timestamp.now) .UTC
  return { text := now.format "uuuu-MM-dd'T'HH:mm:ss.SSSSSSSSSxxx" }

def machine : Host IO where
  valueOf v := IO.getEnv v.name
  look := lookAtFile
  openLog := openLogFile
  appendLine := appendToFile
  print := IO.print
  printError := IO.eprintln
  now := clockTime

def usage : String :=
  "usage: [-p PATTERN] [--varid N] [-r] [--no-varid] [--json] [-c FILE] DUMP_FILE"

def runOnMachine (arguments : List String) : IO UInt32 := do
  let ending ← run machine arguments
  if ending = .badArguments then IO.eprintln usage
  return ending.exitCode

end TokenStream.Command

def main (arguments : List String) : IO UInt32 :=
  TokenStream.Command.runOnMachine arguments
