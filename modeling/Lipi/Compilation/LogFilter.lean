import Lipi.Compilation.Event
import Lipi.Text.Space

/-!
# Filters of the log

A filter is a list of directives, each of which sets a level for the programs whose names start in
a given way. Of the directives for a program, the most specific one decides.
-/

namespace Lipi

/-- The name under which filters know the program. -/
def programName : Text := "sutra".toList

namespace LogLevel

/-- The number that decimal digits stand for, which may follow a plus sign. -/
def number? (text : Text) : Option Nat :=
  let digits := (Text.after? ['+'] text).getD text
  if digits ≠ [] ∧ digits.all Char.isDigit then
    some (digits.foldl (fun value c => value * 10 + (c.toNat - 48)) 0)
  else none

/-- The level with a name, in any letter case, or with the number of its place. -/
def ofText? (text : Text) : Option LogLevel :=
  all.find? fun level => level.name.toList = text.map Char.toUpper || number? text = some level.rank

end LogLevel

/-- Sets the level for the programs whose names start with a text. -/
structure LogDirective where
  start : Text := []
  level : LogLevel
  deriving DecidableEq, Repr

/-- Directives for programs. -/
abbrev LogFilter := List LogDirective

namespace LogDirective

/-- Whether a directive can start with a character. -/
def canStart (c : Char) : Bool :=
  c = '-' || c = ':' || c = '_' || c.isAlphanum || 0x80 ≤ c.toNat

/-- Reads a directive: a level for all programs, the start of a name, or both with an equals sign
between them. Where a level is missing, everything is shown. A bracket introduces a stretch of the
program, of which there are none, so there is nothing to show. -/
def parse? (directive : Text) : Option LogDirective :=
  match Text.trimStart directive with
  | [] => none
  | first :: _ =>
    let start := directive.takeWhile fun c => c ≠ '=' && c ≠ '['
    match directive.drop start.length with
    | [] =>
      if canStart first then some (((LogLevel.ofText? directive).map ({ level := · })).getD
        { start := directive, level := .trace })
      else none
    | c :: level =>
      if c = '[' then some { level := .off }
      else if !canStart first || Text.trimStart directive ≠ directive then none
      else if level.isEmpty then some { start, level := .trace }
      else (LogLevel.ofText? level).map fun level => { start, level }

end LogDirective

namespace LogFilter

/-- The filter that sets one level for everything. -/
def everywhere (level : LogLevel) : LogFilter :=
  [{ level }]

/-- The pieces of a text between commas. -/
def pieces (piece : Text) : Text → List Text
  | [] => [piece.reverse]
  | c :: text => if c = ',' then piece.reverse :: pieces [] text else pieces (c :: piece) text

/-- Reads a filter, whose directives have commas between them. Without any, errors are shown. -/
def parse? (filter : Text) : Option LogFilter := do
  let directives ← ((pieces [] filter).filter (· ≠ [])).mapM LogDirective.parse?
  return if directives.isEmpty then everywhere .error else directives

/-- The directive that decides for a program: the one with the longest start, and of those the
last. -/
def deciding? (filter : LogFilter) (name : Text) : Option LogDirective :=
  (filter.filter (·.start.isPrefixOf name)).foldl (fun best directive =>
    match best with
    | none => some directive
    | some best => some (if best.start.length ≤ directive.start.length then directive else best))
    none

/-- The level at which the program logs. -/
def level (filter : LogFilter) : LogLevel :=
  ((filter.deciding? programName).map (·.level)).getD .off

/-- The lines of a log. -/
def render (filter : LogFilter) (events : List Event) : List String :=
  (events.filter (·.level.rank ≤ filter.level.rank)).map Event.render

end LogFilter

end Lipi
