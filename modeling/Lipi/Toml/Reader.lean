import Lipi.Text.Basic

/-!
# Reading TOML

A reader takes what it reads off the front of a text, or fails. This module has the readers for
white space, line ends and comments, which all the others are made from.
-/

namespace Lipi.Toml

/-- Takes a value off the front of a text. -/
abbrev Reader (α : Type) := StateT Text Option α

namespace Reader

/-- The next character, which is left in place. -/
def peek : Reader (Option Char) := fun text => some (text.head?, text)

/-- Takes a character that satisfies a predicate. -/
def satisfy (p : Char → Bool) : Reader Char
  | [] => none
  | c :: text => if p c then some (c, text) else none

/-- Takes the given text. -/
def exactly (expected : Text) : Reader Unit := fun text =>
  (Text.after? expected text).map ((), ·)

/-- Takes the characters that satisfy a predicate. -/
def span (p : Char → Bool) : Reader Text := fun text =>
  some (text.takeWhile p, text.dropWhile p)

/-- Whether the text continues as given; if so, that part is taken. -/
def accept (expected : Text) : Reader Bool := fun text =>
  match Text.after? expected text with
  | some rest => some (true, rest)
  | none => some (false, text)

/-- Reads with a bound on the number of rounds that the text cannot exceed. -/
def bounded {α : Type} (loop : Nat → Reader α) : Reader α := fun text =>
  loop (text.length + 1) text

/-! ### White space and comments -/

def isBlank (c : Char) : Bool :=
  c = ' ' || c = '\t'

/-- The characters that stand for themselves in comments and strings: no control characters
except the tab. -/
def isPrintable (c : Char) : Bool :=
  c = '\t' || (0x20 ≤ c.toNat && c.toNat ≠ 0x7F)

def skipBlanks : Reader Unit := do
  discard (span isBlank)

/-- Takes a line end, if there is one. -/
def acceptNewline : Reader Bool := do
  if ← accept ['\n'] then return true
  accept ['\r', '\n']

/-- Takes a comment, if there is one. -/
def skipComment : Reader Unit := do
  if ← accept ['#'] then discard (span isPrintable)

/-- Takes the blanks, the comment and the line end after something that has to be the last on its
line. -/
def endLine : Reader Unit := do
  skipBlanks
  skipComment
  if ← acceptNewline then return
  if (← peek).isSome then failure

/-- Takes blanks, comments and line ends. -/
def skipLines : (rounds : Nat) → Reader Unit
  | 0 => return
  | rounds + 1 => do
    skipBlanks
    skipComment
    if ← acceptNewline then skipLines rounds

end Reader

end Lipi.Toml
