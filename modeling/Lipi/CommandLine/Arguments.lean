import Lipi.Program.Loop

/-!
# Command-line arguments

The arguments name a command and its source file. Options may stand before and after the command,
one by one or, in their short form, several in one argument.
-/

namespace Lipi.CommandLine

/-- How a compiled program is printed. -/
inductive OutputFormat where
  | plain
  | json
  deriving DecidableEq, Repr

/-- The format with a name. -/
def OutputFormat.ofName? : String → Option OutputFormat
  | "js" => some plain
  | "json" => some json
  | _ => none

/-- What is to be done with a source file. -/
inductive Command where
  | run
  | compile (format : OutputFormat)
  deriving DecidableEq, Repr

/-- What the arguments ask for. -/
structure Invocation where
  command : Command
  path : String
  verbosity : Nat := 0
  quiet : Bool := false
  settingsFile : Option String := none
  loopTracking : Option LoopTracking := none
  deriving DecidableEq, Repr

/-! ### Options -/

/-- Where among the arguments an option stands: before any command, or after one. -/
inductive Level where
  | top
  | run
  | compile
  deriving DecidableEq, Repr

/-- The command with a name. -/
def Level.ofCommand? : String → Option Level
  | "run" => some run
  | "compile" => some compile
  | _ => none

/-- An option. -/
inductive Switch where
  | verbose
  | quiet
  | settingsFile
  | loopTracking
  | format
  | help
  | version
  deriving DecidableEq, Repr

namespace Switch

/-- The name after two hyphens. -/
def long : Switch → String
  | verbose => "verbose"
  | quiet => "quiet"
  | settingsFile => "config"
  | loopTracking => "loop-tracking"
  | format => "format"
  | help => "help"
  | version => "version"

/-- The letter after one hyphen. -/
def short? : Switch → Option Char
  | verbose => some 'v'
  | quiet => some 'q'
  | settingsFile | loopTracking => none
  | format => some 'f'
  | help => some 'h'
  | version => some 'V'

/-- Whether a value follows. -/
def takesValue : Switch → Bool
  | settingsFile | loopTracking | format => true
  | verbose | quiet | help | version => false

end Switch

/-- The options at a level. -/
def Level.options : Level → List Switch
  | top => [.verbose, .quiet, .settingsFile, .loopTracking, .help, .version]
  | run => [.verbose, .quiet, .settingsFile, .loopTracking, .help]
  | compile => [.format, .verbose, .quiet, .settingsFile, .loopTracking, .help]

/-! ### Reading -/

/-- What the arguments ask for instead of a command, or that they are refused. -/
inductive Stop where
  | refused
  | help (level : Level)
  | version
  deriving DecidableEq, Repr

/-- What has been given at one level. -/
structure Given where
  verbosity : Nat := 0
  quiet : Bool := false
  settingsFile : Option String := none
  loopTracking : Option LoopTracking := none
  format : Option OutputFormat := none
  path : Option String := none
  deriving DecidableEq, Repr

/-- How far the arguments have been read. `before` was given before the command, `waiting` is an
option whose value comes next, after `valuesOnly` no argument is an option, and `helpOn` is what
help has been asked on by name. -/
structure Reading where
  level : Level := .top
  before : Given := {}
  given : Given := {}
  waiting : Option Switch := none
  valuesOnly : Bool := false
  helpOn : Option Level := none
  deriving DecidableEq, Repr

namespace Reading

/-- Fills a place that can be filled once. -/
def once {α : Type} (place : Option α) (value : Option α) : Except Stop (Option α) :=
  match place, value with
  | none, some value => .ok (some value)
  | _, _ => .error .refused

/-- Gives an option a value. -/
def giveValue (reading : Reading) (option : Switch) (value : String) : Except Stop Reading := do
  let given := reading.given
  let given ← match option with
    | .settingsFile => do
      pure { given with settingsFile := ← once given.settingsFile (some value) }
    | .loopTracking => do
      pure { given with loopTracking := ← once given.loopTracking (LoopTracking.ofName? value) }
    | .format => do
      pure { given with format := ← once given.format (OutputFormat.ofName? value) }
    | .verbose | .quiet | .help | .version => throw .refused
  return { reading with given, waiting := none }

/-- Takes an option without a value. -/
def giveFlag (reading : Reading) : Switch → Except Stop Reading
  | .verbose =>
    .ok { reading with given := { reading.given with verbosity := reading.given.verbosity + 1 } }
  | .quiet =>
    if reading.given.quiet then .error .refused
    else .ok { reading with given := { reading.given with quiet := true } }
  | .help => .error (.help reading.level)
  | .version => .error .version
  | .settingsFile | .loopTracking | .format => .error .refused

/-- Reads an option in its long form, from after the hyphens. Its value may follow an equals
sign. -/
def readLong (reading : Reading) (argument : Text) : Except Stop Reading := do
  let name := String.ofList (argument.takeWhile (· ≠ '='))
  let attached := argument.dropWhile (· ≠ '=')
  match reading.level.options.find? (·.long = name) with
  | none => throw .refused
  | some option =>
    match option.takesValue, attached with
    | true, [] => return { reading with waiting := some option }
    | true, _ :: value => reading.giveValue option (String.ofList value)
    | false, [] => reading.giveFlag option
    | false, _ :: _ => throw .refused

/-- What follows an equals sign at the front, or everything. -/
def dropEquals : Text → Text
  | [] => []
  | c :: text => if c = '=' then text else c :: text

/-- Reads options in their short form, from after the hyphen. What follows one that takes a value is
its value. -/
def readShort (reading : Reading) : Text → Except Stop Reading
  | [] => .ok reading
  | letter :: rest =>
    match reading.level.options.find? (·.short? = some letter) with
    | none => .error .refused
    | some option =>
      if option.takesValue then
        if rest.isEmpty then .ok { reading with waiting := some option }
        else reading.giveValue option (String.ofList (dropEquals rest))
      else
        match reading.giveFlag option with
        | .ok next => next.readShort rest
        | .error stop => .error stop

/-- Reads an argument that is no option: a value that is waited for, a command, or a path. -/
def readValue (reading : Reading) (argument : String) : Except Stop Reading :=
  match reading.waiting with
  | some option => reading.giveValue option argument
  | none =>
    match reading.level with
    | .top =>
      if reading.valuesOnly then .error .refused
      else if argument = "help" then .ok { helpOn := some .top }
      else match Level.ofCommand? argument with
        | some level => .ok { level, before := reading.given }
        | none => .error .refused
    | .run | .compile => do
      let path ← once reading.given.path (some argument)
      return { reading with given := { reading.given with path } }

/-- Reads what help is asked on, which is one command. -/
def readHelp (argument : String) : Level → Except Stop Reading
  | .top =>
    match Level.ofCommand? argument with
    | some level => .ok { helpOn := some level }
    | none => .error .refused
  | .run | .compile => .error .refused

/-- Reads an argument. An option is refused where a value is waited for. -/
def step (reading : Reading) (argument : String) : Except Stop Reading :=
  if let some level := reading.helpOn then readHelp argument level
  else if reading.valuesOnly then reading.readValue argument
  else match argument.toList with
    | '-' :: '-' :: name =>
      if reading.waiting.isSome then .error .refused
      else if name.isEmpty then .ok { reading with valuesOnly := true }
      else reading.readLong name
    | '-' :: letter :: rest =>
      if reading.waiting.isSome then .error .refused else reading.readShort (letter :: rest)
    | _ => reading.readValue argument

/-- What has been asked for, once all arguments have been read. What was given after the command
counts before what was given in front of it. -/
def finish (reading : Reading) : Except Stop Invocation := do
  let { before, given, .. } := reading
  if let some level := reading.helpOn then throw (.help level)
  if reading.waiting.isSome then throw .refused
  let command : Command ← match reading.level with
    | .top => throw .refused
    | .run => pure .run
    | .compile => pure (.compile (given.format.getD .plain))
  match given.path with
  | none => throw .refused
  | some path => return {
      command
      path
      verbosity := if given.verbosity = 0 then before.verbosity else given.verbosity
      quiet := given.quiet || before.quiet
      settingsFile := given.settingsFile.or before.settingsFile
      loopTracking := given.loopTracking.or before.loopTracking }

end Reading

/-- Reads the arguments. -/
def readArguments (arguments : List String) : Except Stop Invocation := do
  (← arguments.foldlM Reading.step {}).finish

end Lipi.CommandLine
