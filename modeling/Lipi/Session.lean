import Lipi.Compilation.Compile
import Lipi.Execution

/-!
# Sessions

A session compiles programs and executes them one after another, and shows for each either what it
printed or what went wrong. Its sandbox stands for whatever executes the compiled programs.
-/

namespace Lipi

/-- The lines that something has printed so far. -/
structure Transcript where
  lines : List Text := []
  deriving DecidableEq, Repr

namespace Transcript

def emit (transcript : Transcript) (line : Text) : Transcript :=
  ⟨transcript.lines ++ [line]⟩

def isEmpty (transcript : Transcript) : Bool :=
  transcript.lines.isEmpty

/-- The lines, and the transcript that goes on without them. -/
def take (transcript : Transcript) : List Text × Transcript :=
  (transcript.lines, {})

end Transcript

/-- Why a session has no lines to show. -/
inductive SessionError where
  | rejected (rejection : Rejection)
  | failed (error : ExecutionError)

def SessionError.message : SessionError → String
  | rejected rejection => rejection.diagnostic.render
  | failed error => error.message

namespace Session

/-- What is shown for a program that printed nothing. -/
def noOutput : String := "(no output)"

/-- The lines that a source text prints. -/
def capture (options : CompileOptions) (sandbox : Text → Execution) (source : Text) :
    Logged (Except SessionError (List Text)) :=
  let compiled := compile options source
  let result := match compiled.result with
    | .error rejection => .error (.rejected rejection)
    | .ok program =>
      let execution := sandbox program
      match execution.outcome with
      | .ok () => .ok execution.lines
      | .error error => .error (.failed error)
  ⟨compiled.events, result⟩

/-- What is shown for a result. -/
def display : Except SessionError (List Text) → String
  | .ok lines => if lines.isEmpty then noOutput else String.ofList (Text.joinLines lines)
  | .error error => "Error: " ++ error.message

/-- Compiles and executes a source text, for display. -/
def run (options : CompileOptions) (sandbox : Text → Execution) (source : Text) : Logged String :=
  let captured := capture options sandbox source
  ⟨captured.events, display captured.result⟩

end Session

end Lipi
