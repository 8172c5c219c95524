import Lipi.Machine.Shell.Reader
import Lipi.Machine.Shell.Utility
import Lipi.Text.Space

/-!
# Running shell scripts

A script is run as a function from its arguments and its input to what it writes and how it ends.
-/

namespace Lipi.Shell

/-- What a script is run with. -/
structure Surroundings where
  files : FileTree
  script : String
  arguments : List String

/-- The shell between two steps. -/
structure State where
  input : Bytes
  readInput : Bool := false
  stdout : Bytes := []
  stderr : Bytes := []
  status : Nat := 0
  ended : Option ExitStatus := none

/-! ### Expansion -/

/-- Fields of a command that are complete, and the one being put together. -/
structure Fields where
  complete : List Text := []
  current : Option Text := none

namespace Fields

def add (fields : Fields) (c : Char) : Fields :=
  { fields with current := some (fields.current.getD [] ++ [c]) }

def close (fields : Fields) : Fields :=
  { complete := fields.complete ++ fields.current.toList }

/-- Adds a value as it is. -/
def addQuoted (fields : Fields) (value : Text) : Fields :=
  { fields with current := some (fields.current.getD [] ++ value) }

/-- Adds a value that is split at its white space. -/
def addSplit (fields : Fields) (value : Text) : Fields :=
  value.foldl (fun fields c => if Text.isSpace c then fields.close else fields.add c) fields

/-- Adds values, each as a field of its own. -/
def addEach (fields : Fields) : List Text → Fields
  | [] => fields
  | [value] => fields.addQuoted value
  | value :: rest => (fields.addQuoted value).close.addEach rest

end Fields

/-- The value of a parameter. -/
def parameterValue (surroundings : Surroundings) (status : Nat) (name : Char) : Text :=
  match name with
  | '#' => (toString surroundings.arguments.length).toList
  | '?' => (toString status).toList
  | '$' => shellProcess
  | '0' => surroundings.script.toList
  | '@' | '*' => [' '].intercalate (surroundings.arguments.map String.toList)
  | _ => ((surroundings.arguments[name.toNat - 49]?).getD "").toList

/-- The fields of a word. -/
def expand (surroundings : Surroundings) (status : Nat) (word : Word) : List Text :=
  let start : Fields := if word.isEmpty then { current := some [] } else {}
  let fields := word.foldl (fun fields part =>
    match part with
    | .char c _ => fields.add c
    | .parameter name quoted =>
      if quoted ∧ name = '@' then fields.addEach (surroundings.arguments.map String.toList)
      else
        let value := parameterValue surroundings status name
        if quoted then fields.addQuoted value else fields.addSplit value) start
  fields.close.complete

/-! ### Commands -/

/-- Where a stream of a command goes. -/
inductive Sink where
  | stdout
  | stderr
  | nowhere
  deriving DecidableEq, Repr

/-- Where the streams of a command come from and go to. -/
structure Streams where
  emptyInput : Bool := false
  output : Sink := .stdout
  errors : Sink := .stderr

/-- The streams after a redirection. Files are written to for nobody to read. -/
def redirect (streams : Streams) (redirection : Redirection) : Streams :=
  match redirection.direction with
  | .fromFile => { streams with emptyInput := true }
  | .toFile =>
    if redirection.stream = 2 then { streams with errors := .nowhere }
    else { streams with output := .nowhere }
  | .toStream =>
    let sink := if redirection.target = [.char '2' false] then streams.errors else streams.output
    if redirection.stream = 2 then { streams with errors := sink }
    else { streams with output := sink }

/-- The bytes that reach a sink. -/
def reaching (sink : Sink) (streams : Streams) (run : UtilityRun) : Bytes :=
  (if streams.output = sink then run.output else []) ++
    (if streams.errors = sink then run.errors else [])

/-- What a command that nobody knows says. -/
def unknownCommand (surroundings : Surroundings) (line : Nat) (name : Text) : UtilityRun :=
  { errors := Text.encode ((surroundings.script ++ ": " ++ toString line ++ ": ").toList ++ name ++
      ": not found\n".toList)
    status := 127 }

/-- Runs a command on an input, and gives where its streams go as well. -/
def runCommand (surroundings : Surroundings) (line status : Nat) (command : Command)
    (input : Bytes) : UtilityRun × Streams :=
  let streams := command.redirections.foldl redirect {}
  let given := if streams.emptyInput then [] else input
  let run : UtilityRun := match command.words.flatMap (expand surroundings status) with
    | [] => {}
    | name :: arguments =>
      (utility? surroundings.files status name arguments given).getD
        (unknownCommand surroundings line name)
  ({ run with readsInput := run.readsInput && !streams.emptyInput }, streams)

/-- Runs the commands of a pipeline, the first of which is `first` if it reads the shell's own
input. Only a command that stands alone can end the shell by leaving it; a signal always does. -/
def runPipeline (surroundings : Surroundings) (line : Nat) (first : Bool) (input : Bytes)
    (state : State) : List Command → State
  | [] => state
  | command :: rest =>
    let (run, streams) := runCommand surroundings line state.status command input
    let output := reaching .stdout streams run
    let reads := first && run.readsInput
    let alone := first && rest.isEmpty
    let next := { state with
      input := if reads then [] else state.input
      readInput := state.readInput || reads
      stdout := if rest.isEmpty then state.stdout ++ output else state.stdout
      stderr := state.stderr ++ reaching .stderr streams run
      status := run.status
      ended := match run.effect with
        | .proceed => state.ended
        | .exit code => if alone then some (.code code) else state.ended
        | .signal number => some (.signal number false) }
    runPipeline surroundings line false output next rest

/-- Runs a step, unless its condition does not hold or the shell has ended. -/
def runStep (surroundings : Surroundings) (state : State) (step : Step) : State :=
  let holds := match step.condition with
    | .always => true
    | .afterSuccess => state.status = 0
    | .afterFailure => state.status ≠ 0
  if state.ended.isSome || !holds then state
  else runPipeline surroundings step.line true state.input state step.pipeline

/-- Runs a script. Input that it does not read is taken all the same as long as the pipe holds
it. -/
def runScript (surroundings : Surroundings) (script : Text) (input : Bytes) : ProgramRun :=
  let final := (parse script).foldl (runStep surroundings) { input }
  { tookInput := final.readInput || input.length ≤ pipeCapacity
    stdout := final.stdout
    stderr := final.stderr
    status := final.ended.getD (.code final.status) }

end Lipi.Shell
