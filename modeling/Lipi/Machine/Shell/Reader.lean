import Lipi.Machine.Shell.Command

/-!
# Reading shell scripts

A script is read in two steps: its characters into words and operators, and these into the steps
that the shell runs.
-/

namespace Lipi.Shell

/-- How characters are read: outside quotes, inside either kind, or in a comment. -/
inductive Mode where
  | plain
  | single
  | double
  | comment
  deriving DecidableEq, Repr

/-- The parameters that have a name of one character: the arguments of the script, their number,
the last status and the shell itself. -/
def isParameter (c : Char) : Bool :=
  c.isDigit || c = '#' || c = '@' || c = '*' || c = '?' || c = '$'

/-- What has been read when a character is reached: how to read it, the word before it with its
pieces in reverse, and whether the character before it took it along. -/
structure Reading where
  mode : Mode := .plain
  word : Option Word := none
  skip : Bool := false
  deriving DecidableEq, Repr

namespace Reading

/-- Adds a piece to the word. -/
def extend (reading : Reading) (part : WordPart) : Reading :=
  { reading with word := some (part :: reading.word.getD []) }

/-- Begins quotes, which make a word even if nothing is in them. -/
def quote (reading : Reading) (mode : Mode) : Reading :=
  { reading with mode, word := some (reading.word.getD []) }

/-- The word as a token, if there is one. -/
def tokens (reading : Reading) : List ScriptToken :=
  match reading.word with
  | none => []
  | some word => [.word word.reverse]

/-- Ends the word before an operator or a redirection, which may take the next character along. -/
def separate (reading : Reading) (token : ScriptToken) (skip : Bool) : List ScriptToken × Reading :=
  (reading.tokens ++ [token], { skip })

/-- The stream that a digit right before a redirection names, and the reading without it. -/
def streamNumber (reading : Reading) (standard : Nat) : Nat × Reading :=
  match reading.word with
  | some [.char c false] =>
    if c.isDigit then (c.toNat - 48, { reading with word := none }) else (standard, reading)
  | _ => (standard, reading)

/-- Reads a dollar sign, with the parameter that it may introduce. -/
def dollar (reading : Reading) (quoted : Bool) : Option Char → Reading
  | some name =>
    if isParameter name then { reading.extend (.parameter name quoted) with skip := true }
    else reading.extend (.char '$' quoted)
  | none => reading.extend (.char '$' quoted)

/-- Reads a character inside double quotes. -/
def stepDouble (reading : Reading) (c : Char) (next : Option Char) : Reading :=
  if c = '"' then { reading with mode := .plain }
  else if c = '$' then reading.dollar true next
  else if c = '\\' then
    match next with
    | some escaped =>
      if escaped = '\n' then { reading with skip := true }
      else if escaped = '$' ∨ escaped = '"' ∨ escaped = '\\' ∨ escaped.toNat = 0x60 then
        { reading.extend (.char escaped true) with skip := true }
      else reading.extend (.char c true)
    | none => reading.extend (.char c true)
  else reading.extend (.char c true)

/-- Reads a character outside quotes. -/
def stepPlain (reading : Reading) (c : Char) (next : Option Char) : List ScriptToken × Reading :=
  if c = ' ' ∨ c = '\t' then (reading.tokens, {})
  else if c = '\n' then reading.separate (.operator .newline) false
  else if c = ';' then reading.separate (.operator .semicolon) false
  else if c = '|' then
    if next = some '|' then reading.separate (.operator .orIf) true
    else reading.separate (.operator .pipe) false
  else if c = '&' then
    if next = some '&' then reading.separate (.operator .andIf) true
    else reading.separate (.operator .semicolon) false
  else if c = '<' then
    let (stream, before) := reading.streamNumber 0
    before.separate (.redirection stream .fromFile) false
  else if c = '>' then
    let (stream, before) := reading.streamNumber 1
    if next = some '&' then before.separate (.redirection stream .toStream) true
    else before.separate (.redirection stream .toFile) (next = some '>')
  else if c = '#' ∧ reading.word = none then ([], { mode := .comment })
  else if c = '\'' then ([], reading.quote .single)
  else if c = '"' then ([], reading.quote .double)
  else if c = '$' then ([], reading.dollar false next)
  else if c = '\\' then
    match next with
    | some escaped =>
      if escaped = '\n' then ([], { reading with skip := true })
      else ([], { reading.extend (.char escaped true) with skip := true })
    | none => ([], reading.extend (.char c true))
  else ([], reading.extend (.char c false))

/-- Reads a character, given the one after it. -/
def step (reading : Reading) (c : Char) (next : Option Char) : List ScriptToken × Reading :=
  match reading.mode with
  | .plain => reading.stepPlain c next
  | .double => ([], reading.stepDouble c next)
  | .single =>
    if c = '\'' then ([], { reading with mode := .plain })
    else ([], reading.extend (.char c true))
  | .comment => if c = '\n' then ([.operator .newline], {}) else ([], reading)

end Reading

/-- The words and operators of a script. -/
def tokens (reading : Reading) : Text → List ScriptToken
  | [] => reading.tokens
  | c :: text =>
    if reading.skip then tokens { reading with skip := false } text
    else
      let (complete, next) := reading.step c text.head?
      complete ++ tokens next text

/-- The pipeline read so far as a step, if there is one. -/
def closeStep (line : Nat) (condition : Condition) (pipeline : List Command) (command : Command) :
    List Step :=
  if pipeline.isEmpty && command.isBlank then []
  else [⟨line, condition, pipeline ++ [command]⟩]

/-- The steps of a script, where `pipeline` and `command` are what has been read of a step. -/
def steps (line : Nat) (condition : Condition) (pipeline : List Command) (command : Command) :
    List ScriptToken → List Step
  | [] => closeStep line condition pipeline command
  | .word word :: rest =>
    steps line condition pipeline { command with words := command.words ++ [word] } rest
  | .redirection stream direction :: .word target :: rest =>
    steps line condition pipeline
      { command with redirections := command.redirections ++ [⟨stream, direction, target⟩] } rest
  | .redirection .. :: rest => steps line condition pipeline command rest
  | .operator .pipe :: rest => steps line condition (pipeline ++ [command]) {} rest
  | .operator .semicolon :: rest =>
    closeStep line condition pipeline command ++ steps line .always [] {} rest
  | .operator .newline :: rest =>
    closeStep line condition pipeline command ++ steps (line + 1) .always [] {} rest
  | .operator .andIf :: rest =>
    closeStep line condition pipeline command ++ steps line .afterSuccess [] {} rest
  | .operator .orIf :: rest =>
    closeStep line condition pipeline command ++ steps line .afterFailure [] {} rest

/-- Reads a script. -/
def parse (script : Text) : List Step :=
  steps 1 .always [] {} (tokens {} script)

end Lipi.Shell
