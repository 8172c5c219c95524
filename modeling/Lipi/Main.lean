import Lipi.CommandLine.Run

/-!
# The program

Takes in the environment variables and the files that the arguments lead to, and writes out what the
command line makes of them.
-/

namespace Lipi

/-- A file or directory of the machine. -/
def readEntry (path : String) : IO (Option FileEntry) :=
  try
    let content := (← IO.FS.readBinFile path).toList
    return some (.file content (content.take 2 = "#!".toUTF8.toList))
  catch
    | .inappropriateType .. => return some .directory
    | _ => return none

/-- The files of the machine among some paths. -/
def readFiles (paths : List String) : IO FileTree := do
  let entries ← paths.filterMapM fun path => do
    let names := (Path.names path).filter fun name => name ≠ "" ∧ name ≠ "."
    return (← readEntry path).map (names, ·)
  return { entries }

/-- The environment variables of the program. -/
def readEnvironment : IO Settings.Environment := do
  let content := Text.decodeLossy (← IO.FS.readBinFile "/proc/self/environ").toList
  return (String.ofList content).splitOn "\x00" |>.map fun assignment =>
    let text := assignment.toList
    (String.ofList (text.takeWhile (· ≠ '=')), String.ofList ((text.dropWhile (· ≠ '=')).drop 1))

/-- The world as far as the arguments lead to it: first to the settings, then to what they name. -/
def readWorld (arguments : List String) : IO CommandLine.World := do
  let start : CommandLine.World := { environment := ← readEnvironment }
  let known := { start with files := ← readFiles (CommandLine.pathsNeeded start arguments) }
  return { known with files := ← readFiles (CommandLine.pathsNeeded known arguments) }

end Lipi

def main (arguments : List String) : IO UInt32 := do
  let outcome := Lipi.CommandLine.runCommandLine (← Lipi.readWorld arguments) arguments
  IO.print outcome.stdout
  IO.eprint outcome.stderr
  return outcome.code.toUInt32
