import Lipi.Compilation.Event
import Lipi.Machine.ProgramRun
import Lipi.Machine.SystemError
import Lipi.Text.Space

/-!
# Execution

A compiled program is executed by a JavaScript runtime. The runtime gets a fixed script as its
argument and the program on its standard input, and what it writes is taken in line by line.
-/

namespace Lipi

/-- Why an execution failed. -/
inductive ExecutionError where
  | notStarted (runtime : String) (cause : SystemError)
  | lostContact (cause : SystemError)
  | script (message : String)
  deriving DecidableEq, Repr

def ExecutionError.message : ExecutionError → String
  | notStarted runtime cause => "could not start " ++ runtime ++ ": " ++ cause.message
  | lostContact cause => "lost contact with the JavaScript runtime: " ++ cause.message
  | script message => message

/-- The lines that an execution gave, also those before a failure, and how it ended. -/
structure Execution where
  lines : List Text
  outcome : Except ExecutionError Unit

namespace Execution

/-- The script that the runtime is started with. It reads a program from standard input and runs it
with nothing but a console, and reports a failure on standard error. -/
def prelude : String := "
const vm = require('vm');
let program = '';
process.stdin.setEncoding('utf8');
process.stdin.on('data', (chunk) => \x7b program += chunk; \x7d);
process.stdin.on('end', () => \x7b
  const context = \x7b console: \x7b log: (...args) => console.log(...args) \x7d \x7d;
  vm.createContext(context);
  try \x7b
    vm.runInContext(program, context);
  \x7d catch (error) \x7b
    const message = error && error.message !== undefined ? error.message : String(error);
    process.stderr.write(message);
    process.exitCode = 1;
  \x7d
\x7d);
"

/-- The arguments of the runtime. -/
def arguments : List String := ["-e", prelude]

/-! ### Lines of a stream -/

/-- A line read backwards, without the carriage return right before its newline. -/
def dropReturn : Bytes → Bytes
  | [] => []
  | b :: line => if b = 13 then line else b :: line

/-- The lines of a stream, of whose first line the bytes in `line` have been read, the last one
first. A line ends at a newline, and a carriage return right before the newline belongs to the
ending. A last line without a newline counts. -/
def splitLines (line : Bytes) : Bytes → List Bytes
  | [] => if line.isEmpty then [] else [line.reverse]
  | b :: bytes =>
    if b = 10 then (dropReturn line).reverse :: splitLines [] bytes
    else splitLines (b :: line) bytes

/-- The lines up to the first that is not valid UTF-8, and whether there is no such line. -/
def decodeLines : List Bytes → List Text × Bool
  | [] => ([], true)
  | line :: rest =>
    match Text.decode? line with
    | none => ([], false)
    | some text =>
      let later := decodeLines rest
      (text :: later.1, later.2)

/-! ### Outcomes -/

/-- How an execution with valid lines ends. -/
def ending (runtime : String) (run : ProgramRun) : Except ExecutionError Unit :=
  match Text.decode? run.stderr with
  | none => .error (.lostContact .invalidUtf8)
  | some message =>
    if run.status.isSuccess then .ok ()
    else
      let reason := Text.trim message
      .error (.script (if reason.isEmpty then runtime ++ " exited with " ++ run.status.render
        else String.ofList reason))

/-- What an execution makes of a runtime's run. -/
def ofRun (runtime : String) (run : ProgramRun) : Execution :=
  if run.tookInput then
    let (lines, valid) := decodeLines (splitLines [] run.stdout)
    ⟨lines, if valid then ending runtime run else .error (.lostContact .invalidUtf8)⟩
  else ⟨[], .error (.lostContact .brokenPipe)⟩

/-- Whether the failure is a message about the program or the runtime's status, which is logged. -/
def isScriptFailure (execution : Execution) : Bool :=
  match execution.outcome with
  | .error (.script _) => true
  | _ => false

end Execution

/-- Executes a program with a runtime, which `start` looks up. -/
def execute (start : String → Except SystemError Executable) (runtime : String) (program : Text) :
    Logged Execution :=
  let started := Event.executingProgram runtime (Text.byteLength program)
  match start runtime with
  | .error cause => ⟨[started], ⟨[], .error (.notStarted runtime cause)⟩⟩
  | .ok executable =>
    let run := executable Execution.arguments (Text.encode program)
    let execution := Execution.ofRun runtime run
    let failed := if execution.isScriptFailure then [Event.programFailed run.status.render] else []
    ⟨started :: failed, execution⟩

end Lipi
