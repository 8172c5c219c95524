import Lipi.Text.Basic

/-!
# Shell commands

The commands of a shell script: pipelines of simple commands that follow each other, always or
depending on the status of the one before.
-/

namespace Lipi.Shell

/-- A piece of a word. Quoted pieces are kept together when a word is split into fields. -/
inductive WordPart where
  | char (c : Char) (quoted : Bool)
  | parameter (name : Char) (quoted : Bool)
  deriving DecidableEq, Repr

/-- A word of a command, before its parameters are filled in. -/
abbrev Word := List WordPart

/-- The operators between words. -/
inductive Operator where
  | semicolon
  | newline
  | pipe
  | andIf
  | orIf
  deriving DecidableEq, Repr

/-- What a redirection does with a stream. -/
inductive Direction where
  | fromFile
  | toFile
  | toStream
  deriving DecidableEq, Repr

/-- Sends a stream to a file or to another stream. -/
structure Redirection where
  stream : Nat
  direction : Direction
  target : Word
  deriving DecidableEq, Repr

/-- A piece of a script. -/
inductive ScriptToken where
  | word (word : Word)
  | operator (operator : Operator)
  | redirection (stream : Nat) (direction : Direction)
  deriving DecidableEq, Repr

/-- The name and arguments of a utility, with its redirections. -/
structure Command where
  words : List Word := []
  redirections : List Redirection := []
  deriving DecidableEq, Repr

def Command.isBlank (command : Command) : Bool :=
  command.words.isEmpty && command.redirections.isEmpty

/-- When a step runs, by the status of the step before. -/
inductive Condition where
  | always
  | afterSuccess
  | afterFailure
  deriving DecidableEq, Repr

/-- A pipeline of commands on a line of a script. -/
structure Step where
  line : Nat
  condition : Condition
  pipeline : List Command
  deriving DecidableEq, Repr

end Lipi.Shell
