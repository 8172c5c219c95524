import Lipi.Program.Comment
import Lipi.Text.Space

/-!
# Statements

Statements end in a semicolon. A program may leave it out at the end of a line, where it is added
unless the line already ends in a semicolon or a brace.
-/

namespace Lipi.Text

/-- Ends a statement. -/
def terminator : Char := ';'

/-- Whether a line that ends in the character needs no terminator. -/
def endsStatement (c : Char) : Bool :=
  c = '{' || c = '}' || c = terminator

/-- A line with its last statement terminated. A blank line becomes empty, and a line that is only
a comment is left alone. -/
def terminateLine (line : Text) : Text :=
  let trimmed := trim line
  if trimmed.isEmpty then []
  else if (after? commentMarker trimmed).isSome then line
  else if trimmed.getLast?.any endsStatement then line
  else line ++ [terminator]

/-- A text with the last statement of every line terminated. -/
def terminateStatements (text : Text) : Text :=
  mapLines terminateLine text

end Lipi.Text
