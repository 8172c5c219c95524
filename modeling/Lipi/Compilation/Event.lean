import Lipi.Compilation.Stage

/-!
# Log events

What the program does is logged as events. An event has a level, a message and named fields, and
is shown as one line.
-/

namespace Lipi

/-- How much a log shows; each level shows what those before it show. -/
inductive LogLevel where
  | off
  | error
  | warn
  | info
  | debug
  | trace
  deriving DecidableEq, Repr

namespace LogLevel

def all : List LogLevel := [off, error, warn, info, debug, trace]

def name : LogLevel → String
  | off => "OFF"
  | error => "ERROR"
  | warn => "WARN"
  | info => "INFO"
  | debug => "DEBUG"
  | trace => "TRACE"

/-- The place of a level among the levels. -/
def rank (level : LogLevel) : Nat :=
  all.idxOf level

end LogLevel

/-- Something worth logging. -/
inductive Event where
  | loadedSource (path : String) (bytes : Nat)
  | compiling (bytes : Nat)
  | runningStage (stage : Stage)
  | stageFailed (stage : Stage) (kind : FaultKind)
  | compiled (bytes : Nat)
  | executingProgram (runtime : String) (bytes : Nat)
  | programFailed (status : String)
  deriving DecidableEq, Repr

/-- The value of an event's field. A label is shown in quotes, other text as it is. -/
inductive EventField where
  | size (bytes : Nat)
  | label (text : String)
  | plain (text : String)
  deriving DecidableEq, Repr

def EventField.render : EventField → String
  | size bytes => toString bytes
  | label text => "\"" ++ text ++ "\""
  | plain text => text

namespace Event

def level : Event → LogLevel
  | runningStage _ => .trace
  | _ => .debug

def message : Event → String
  | loadedSource .. => "loaded source"
  | compiling _ => "compiling"
  | runningStage _ => "running stage"
  | stageFailed .. => "stage failed"
  | compiled _ => "compiled"
  | executingProgram .. => "executing program"
  | programFailed _ => "program failed"

def fields : Event → List (String × EventField)
  | loadedSource path bytes => [("path", .plain path), ("bytes", .size bytes)]
  | compiling bytes => [("bytes", .size bytes)]
  | runningStage stage => [("stage", .label stage.name)]
  | stageFailed stage kind => [("stage", .label stage.name), ("kind", .label kind.name)]
  | compiled bytes => [("bytes", .size bytes)]
  | executingProgram runtime bytes => [("runtime", .plain runtime), ("bytes", .size bytes)]
  | programFailed status => [("status", .plain status)]

/-- An event as a line of the log. -/
def render (event : Event) : String :=
  event.fields.foldl (fun line (name, field) => line ++ " " ++ name ++ "=" ++ field.render)
    (event.level.name ++ " " ++ event.message)

end Event

/-- A result together with the events on the way to it. -/
structure Logged (α : Type) where
  events : List Event
  result : α

end Lipi
