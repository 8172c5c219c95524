import Lipi.Toml.Moment
import Lipi.Toml.Number
import Lipi.Toml.Quoted
import Lipi.Toml.Table

/-!
# TOML documents

A document is a sequence of headers and assignments, one a line.
-/

namespace Lipi.Toml

namespace Reader

/-! ### Keys -/

def isKeyChar (c : Char) : Bool :=
  c.isAlphanum || c = '_' || c = '-'

/-- Reads a key without dots. -/
def simpleKey : Reader String := do
  match ← peek with
  | some '"' | some '\'' => return String.ofList (← lineString)
  | _ =>
    let key ← span isKeyChar
    if key.isEmpty then failure
    return String.ofList key

/-- A key has fewer names than this, and values inside one another are fewer. -/
def nestingBound : Nat := 80

/-- Reads the rest of a dotted key, of fewer names than `rounds`. -/
def moreKeys : (rounds : Nat) → Reader (List String)
  | 0 => failure
  | rounds + 1 => do
    skipBlanks
    if ← accept ['.'] then
      skipBlanks
      let key ← simpleKey
      return key :: (← moreKeys rounds)
    else return []

/-- Reads a dotted key with the blanks around it. -/
def dottedKey : Reader (List String) := do
  skipBlanks
  let first ← simpleKey
  return first :: (← moreKeys (nestingBound - 1))

/-! ### Values -/

/-- The characters of numbers, dates and the words for special values. -/
def isScalarChar (c : Char) : Bool :=
  c.isAlphanum || c = '+' || c = '-' || c = '_' || c = '.' || c = ':'

/-- Whether a text starts like a date or a time. -/
def startsMoment (text : Text) : Bool :=
  let digits := (text.takeWhile Char.isDigit).length
  let next := (text.drop digits).head?
  (digits = 4 && next = some '-') || (digits = 2 && next = some ':')

/-- Reads a value that is not a string, an array or a table. -/
def scalar : Reader Value := do
  if startsMoment (← get) then return .moment (String.ofList (← moment))
  let word ← span isScalarChar
  if word = "true".toList then return .boolean true
  if word = "false".toList then return .boolean false
  match integer? word with
  | some value => return value
  | none =>
    match float? word with
    | some value => return value
    | none => failure

/-- Reads the items of an array from after its bracket. -/
def arrayItems (item : Reader Value) : (rounds : Nat) → Reader (List Value)
  | 0 => failure
  | rounds + 1 => do
    skipLines (rounds + 1)
    if ← accept [']'] then return []
    let first ← item
    skipLines (rounds + 1)
    if ← accept [','] then return first :: (← arrayItems item rounds)
    exactly [']']
    return [first]

/-- Reads the rest of a table on one line, from a key on. -/
def inlineEntries (item : Reader Value) : (rounds : Nat) → Entries → Reader Entries
  | 0, _ => failure
  | rounds + 1, entries => do
    let keys ← dottedKey
    exactly ['=']
    skipBlanks
    let value ← item
    skipBlanks
    match entries.assign (.value value) keys with
    | none => failure
    | some entries =>
      if ← accept [','] then inlineEntries item rounds entries
      else
        exactly ['\x7d']
        return entries

/-- Reads a table on one line from after its brace. -/
def inlineTable (item : Reader Value) : Reader Value := do
  skipBlanks
  if ← accept ['\x7d'] then return .table []
  let entries ← bounded fun rounds => inlineEntries item rounds []
  return .table (Entries.toValues entries)

/-- Reads a value in which arrays and tables are at most `depth` deep. -/
def value : (depth : Nat) → Reader Value
  | 0 => do
    match ← peek with
    | some '[' | some '\x7b' => failure
    | some '"' | some '\'' => return .text (String.ofList (← anyString))
    | _ => scalar
  | depth + 1 => do
    match ← peek with
    | some '[' =>
      exactly ['[']
      return .array (← bounded (arrayItems (value depth)))
    | some '\x7b' =>
      exactly ['\x7b']
      inlineTable (value depth)
    | some '"' | some '\'' => return .text (String.ofList (← anyString))
    | _ => scalar

/-! ### Lines -/

/-- What a document has been read into so far: its tables, and the keys of the last header. -/
structure Progress where
  root : Entries := []
  header : List String := []

/-- Reads the key of a header up to its closing brackets. -/
def headerKey (closing : Text) : Reader (List String) := do
  let keys ← dottedKey
  exactly closing
  return keys

/-- Changes the table before the last of a header's keys, and makes the header the current one. -/
def enter (progress : Progress) (keys : List String) (change : String → Entries → Option Entries) :
    Reader Progress :=
  match keys.getLast? with
  | none => failure
  | some last =>
    match progress.root.within (change last) keys.dropLast with
    | none => failure
    | some root => return { root, header := keys }

/-- Reads a header or an assignment. -/
def statement (progress : Progress) : Reader Progress := do
  if ← accept ['[', '['] then
    enter progress (← headerKey [']', ']']) Entries.addTable
  else if ← accept ['['] then
    enter progress (← headerKey [']']) Entries.openTable
  else
    let keys ← dottedKey
    exactly ['=']
    skipBlanks
    let value ← value (nestingBound - 1)
    match progress.root.within (Entries.assign (.value value) keys) progress.header with
    | none => failure
    | some root => return { progress with root }

/-- Reads the lines of a document. -/
def lines : (rounds : Nat) → Progress → Reader Progress
  | 0, _ => failure
  | rounds + 1, progress => do
    skipLines (rounds + 1)
    if (← peek).isNone then return progress
    let next ← statement progress
    endLine
    lines rounds next

end Reader

/-- The table of a document, or `none` if its form is wrong. A byte order mark may come first. -/
def parse? (document : Text) : Option (List (String × Value)) := do
  let content := (Text.after? ['\ufeff'] document).getD document
  let (progress, _) ← Reader.bounded (fun rounds => Reader.lines rounds {}) content
  return Entries.toValues progress.root

end Lipi.Toml
