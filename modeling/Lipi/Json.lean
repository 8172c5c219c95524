import Lipi.Text.Basic

/-!
# JSON documents

The documents that the program writes hold text, numbers and objects. They are laid out over
several lines, each level indented by two spaces.
-/

namespace Lipi

/-- A document. -/
inductive Json where
  | text (content : Text)
  | number (value : Nat)
  | object (fields : List (String × Json))

namespace Json

/-- The escape of a control character that has a letter for it. -/
def shortEscapes : List (Char × Char) :=
  [('"', '"'), ('\\', '\\'), ('\x08', 'b'), ('\t', 't'), ('\n', 'n'), ('\x0c', 'f'), ('\r', 'r')]

/-- The last two digits of a control character's code. -/
def controlDigits (c : Char) : Text :=
  [Nat.digitChar (c.toNat / 16), Nat.digitChar (c.toNat % 16)]

/-- A character as it is written between quotes. Only quotes, backslashes and control characters
are escaped. -/
def escape (c : Char) : Text :=
  match shortEscapes.lookup c with
  | some letter => ['\\', letter]
  | none => if c.toNat < 0x20 then ['\\', 'u', '0', '0'] ++ controlDigits c else [c]

/-- A text between quotes. -/
def quote (text : Text) : Text :=
  '"' :: text.flatMap escape ++ ['"']

/-- A line end and the blanks that indent the next line. -/
def newLine (depth : Nat) : Text :=
  '\n' :: List.replicate (2 * depth) ' '

mutual

/-- A document, in which an object's fields are indented by `depth` levels. -/
def renderAt (depth : Nat) : Json → Text
  | .text content => quote content
  | .number value => Nat.toDigits 10 value
  | .object [] => ['\x7b', '\x7d']
  | .object (field :: rest) =>
    '\x7b' :: renderField depth field ++ renderRest depth rest ++ newLine (depth - 1) ++ ['\x7d']

/-- A field on a line of its own. -/
def renderField (depth : Nat) : String × Json → Text
  | (name, value) => newLine depth ++ quote name.toList ++ [':', ' '] ++ renderAt (depth + 1) value

/-- The fields after the first. -/
def renderRest (depth : Nat) : List (String × Json) → Text
  | [] => []
  | field :: rest => ',' :: renderField depth field ++ renderRest depth rest

end

/-- A document over several lines. -/
def render (document : Json) : Text :=
  document.renderAt 1

end Json

end Lipi
