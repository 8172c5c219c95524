import Lipi.CommandLine.Help
import Lipi.Compilation.Compile
import Lipi.Compilation.LogFilter
import Lipi.Execution
import Lipi.Json
import Lipi.Machine.Launch
import Lipi.Settings.Layer
import Lipi.Source
import Lipi.Text.Search

/-!
# The command line

`runCommandLine` does what the arguments ask for: it runs a source file, or prints the program
compiled from it.
-/

namespace Lipi.CommandLine

/-- The files and the environment variables that the program meets. -/
structure World where
  files : FileTree := {}
  environment : Settings.Environment := []

/-- What the program writes, and its exit code. -/
structure Outcome where
  code : Nat
  stdout : String := ""
  stderr : String := ""
  deriving DecidableEq, Repr

/-- Lines, each ended by a newline. -/
def writeLines (lines : List String) : String :=
  String.join (lines.map (· ++ "\n"))

/-- A message about a failure. -/
def failureLine (message : String) : String :=
  "Error: " ++ message ++ "\n"

/-! ### The log -/

/-- The variable that sets the filter of the log. -/
def logVariable : String := "RUST_LOG"

/-- The level that the options ask for. -/
def optionLevel (invocation : Invocation) : LogLevel :=
  if invocation.quiet then .error
  else match invocation.verbosity with
    | 0 => .warn
    | 1 => .info
    | 2 => .debug
    | _ => .trace

/-- The filter of the log: the variable's, if it is set and can be read, or else the options'. -/
def logFilter (world : World) (invocation : Invocation) : LogFilter :=
  ((world.environment.lookup logVariable).bind fun filter => LogFilter.parse? filter.toList).getD
    (.everywhere (optionLevel invocation))

/-! ### Settings -/

/-- The settings file that is read if there is one. -/
def projectFile : String := "sutra.toml"

/-- Where the settings come from. -/
def settingsLayers (invocation : Invocation) : List Settings.Layer :=
  [.file projectFile false] ++
  (invocation.settingsFile.toList.map fun path => .file path true) ++
  [.environment] ++
  invocation.loopTracking.toList.map fun tracking =>
    .override "compile.loop_tracking" (.text tracking.name)

/-! ### Documents -/

def programDocument (program : Text) : Json :=
  .object [("program", .text program)]

def positionDocument (position : Position) : Json :=
  .object [("column", .number position.column), ("line", .number position.line),
    ("line_text", .text position.lineText)]

def diagnosticDocument (diagnostic : Diagnostic) : Json :=
  .object [("message", .text diagnostic.message.toList),
    ("position", positionDocument diagnostic.position), ("snippet", .text diagnostic.snippet)]

def rejectionDocument (rejection : Rejection) : Json :=
  .object [("error", .object [("diagnostic", diagnosticDocument rejection.diagnostic),
    ("kind", .text rejection.kind.name.toList)])]

/-- A document as it is printed. -/
def writeDocument (document : Json) : String :=
  String.ofList document.render ++ "\n"

/-! ### Commands -/

/-- What is printed for a compilation. -/
def compileOutcome : OutputFormat → Except Rejection Text → Outcome
  | .plain, .ok program => { code := 0, stdout := String.ofList program ++ "\n" }
  | .plain, .error rejection => { code := 1, stderr := failureLine rejection.diagnostic.render }
  | .json, .ok program => { code := 0, stdout := writeDocument (programDocument program) }
  | .json, .error rejection => { code := 1, stdout := writeDocument (rejectionDocument rejection) }

/-- The message about a failed run. One that contains the marker of syntax errors is replaced. -/
def runMessage (settings : Settings) (message : String) : String :=
  let marker := settings.invalidSyntaxMarker.toList
  if !marker.isEmpty && Text.contains message.toList marker then "Invalid Sutra syntax."
  else message

/-- What is printed for an execution. -/
def runOutcome (settings : Settings) (execution : Execution) : Outcome :=
  let stdout := writeLines (execution.lines.map String.ofList)
  match execution.outcome with
  | .ok () => { code := 0, stdout }
  | .error error =>
    { code := 1, stdout, stderr := failureLine (runMessage settings error.message) }

/-- Compiles a source text and prints the program, or runs it. -/
def process (world : World) (settings : Settings) (command : Command) (source : Text) :
    Logged Outcome :=
  let compiled := compile { loopTracking := settings.loopTracking } source
  match command, compiled.result with
  | .compile format, result => ⟨compiled.events, compileOutcome format result⟩
  | .run, .error rejection =>
    let message := runMessage settings rejection.diagnostic.render
    ⟨compiled.events, { code := 1, stderr := failureLine message }⟩
  | .run, .ok program =>
    let executed := execute (launch world.files) settings.runtime program
    ⟨compiled.events ++ executed.events, runOutcome settings executed.result⟩

/-- Does what an invocation asks for. -/
def invoke (world : World) (invocation : Invocation) : Logged Outcome :=
  match Settings.load world.files world.environment (settingsLayers invocation) with
  | .error error => ⟨[], { code := 1, stderr := failureLine error.message }⟩
  | .ok settings =>
    let loaded := loadSource world.files settings.extension invocation.path
    match loaded.result with
    | .error error => ⟨loaded.events, { code := 1, stderr := failureLine error.message }⟩
    | .ok source =>
      let processed := process world settings invocation.command source
      ⟨loaded.events ++ processed.events, processed.result⟩

/-- The paths that doing what the arguments ask for may lead to, as far as the settings are known. -/
def pathsNeeded (world : World) (arguments : List String) : List String :=
  match readArguments arguments with
  | .error _ => []
  | .ok invocation =>
    let settingsFiles := projectFile :: invocation.settingsFile.toList
    let runtime :=
      match Settings.load world.files world.environment (settingsLayers invocation) with
      | .ok settings => [settings.runtime]
      | .error _ => []
    invocation.path :: settingsFiles ++ settingsFiles.map (· ++ ".toml") ++ runtime

/-- The outcome of arguments that ask for no command. -/
def Stop.outcome : Stop → Outcome
  | refused => { code := 2, stderr := helpText .top }
  | help level => { code := 0, stdout := helpText level }
  | version => { code := 0, stdout := versionText }

/-- Does what the arguments ask for. The log goes to standard error, before the message about a
failure. -/
def runCommandLine (world : World) (arguments : List String) : Outcome :=
  match readArguments arguments with
  | .error stop => stop.outcome
  | .ok invocation =>
    let logged := invoke world invocation
    let log := writeLines ((logFilter world invocation).render logged.events)
    { logged.result with stderr := log ++ logged.result.stderr }

end Lipi.CommandLine
