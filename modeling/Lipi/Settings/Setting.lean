import Lipi.Toml.Value

/-!
# Single settings

What a key of the settings stands for. Of numbers and truth values only the text is kept.
-/

namespace Lipi

/-- A setting. Places of a list that have been given nothing are unset. -/
inductive Setting where
  | unset
  | text (content : String)
  | literal (content : String)
  | list (items : List Setting)
  | table (entries : List (String × Setting))
  deriving Repr

namespace Setting

mutual

/-- The setting for a TOML value. Dates and times are text. -/
def ofToml : Toml.Value → Setting
  | .text content => .text content
  | .integer number => .literal (toString number)
  | .float number => .literal number.render
  | .boolean truth => .literal (if truth then "true" else "false")
  | .moment content => .text content
  | .array items => .list (listOfToml items)
  | .table entries => .table (entriesOfToml entries)

def listOfToml : List Toml.Value → List Setting
  | [] => []
  | item :: rest => ofToml item :: listOfToml rest

def entriesOfToml : List (String × Toml.Value) → List (String × Setting)
  | [] => []
  | (name, value) :: rest => (name, ofToml value) :: entriesOfToml rest

end

/-- The text of a setting that has one. -/
def text? : Setting → Option String
  | .text content | .literal content => some content
  | .unset | .list _ | .table _ => none

/-- The entries of a table. What is not a table has none. -/
def entries : Setting → List (String × Setting)
  | .table entries => entries
  | _ => []

/-- The items of a list. What is not a list has none. -/
def items : Setting → List Setting
  | .list items => items
  | _ => []

/-- The setting under a name. -/
def get? (root : Setting) (name : String) : Option Setting :=
  root.entries.lookup name

end Setting

end Lipi
