import Lipi.Text.Lines

/-!
# Positions

A position names a line and a column of a text, both counted from 1. Columns count characters. An
offset inside a character has no column in characters, so there the column counts bytes.
-/

namespace Lipi

/-- A place in a text, together with the line it is on. -/
structure Position where
  line : Nat
  column : Nat
  lineText : Text
  deriving DecidableEq, Repr

namespace Position

/-- Goes to the line that an offset is on: its index, its text and the offset within it. -/
def onLine (offset : Nat) : List Text → Nat × Text × Nat
  | [] => (0, [], offset)
  | [line] => (0, line, offset)
  | line :: rest =>
    if offset ≤ Text.byteLength line then (0, line, offset)
    else
      let (index, text, within) := onLine (offset - (Text.byteLength line + 1)) rest
      (index + 1, text, within)

/-- How many characters take up the first `offset` bytes, if a character ends there. -/
def charsBefore? : (offset : Nat) → Text → Option Nat
  | 0, _ => some 0
  | _ + 1, [] => none
  | offset + 1, c :: text =>
    if c.utf8Size ≤ offset + 1 then (charsBefore? (offset + 1 - c.utf8Size) text).map (· + 1)
    else none

/-- The position of an offset. Offsets past the end are taken to the end. -/
def ofOffset (text : Text) (offset : Nat) : Position :=
  let (index, line, within) := onLine (min offset (Text.byteLength text)) (Text.lines text)
  { line := index + 1
    column := (charsBefore? within line).getD within + 1
    lineText := line }

/-- A position as `line:column`. -/
def render (position : Position) : String :=
  toString position.line ++ ":" ++ toString position.column

end Position

end Lipi
