import Lipi.Text.Lines

/-!
# Comments

A comment runs from `//` to the end of its line. The marker counts only outside quotes, and a
backslash takes the character after it along, inside quotes and outside.
-/

namespace Lipi

/-- The quotation mark of an open literal. -/
inductive Quote where
  | single
  | double
  deriving DecidableEq, Repr

namespace Quote

/-- The literal that is open after a character. A mark closes its own literal, and opens one if
none is open. -/
def next (quote : Option Quote) (c : Char) : Option Quote :=
  match quote with
  | none => if c = '\'' then some single else if c = '"' then some double else none
  | some single => if c = '\'' then none else some single
  | some double => if c = '"' then none else some double

end Quote

namespace Text

/-- Begins a comment. -/
def commentMarker : Text := ['/', '/']

/-- The line up to its comment, where `quote` is the literal that is open at its start. -/
def beforeComment (quote : Option Quote) : Text → Text
  | [] => []
  | c :: text =>
    if c = '\\' then
      match text with
      | [] => [c]
      | escaped :: rest => c :: escaped :: beforeComment quote rest
    else if quote = none ∧ c = '/' ∧ text.head? = some '/' then []
    else c :: beforeComment (Quote.next quote c) text

/-- A line without its comment. -/
def stripLine (line : Text) : Text :=
  beforeComment none line

/-- A text without its comments. -/
def stripComments (text : Text) : Text :=
  mapLines stripLine text

end Text

end Lipi
