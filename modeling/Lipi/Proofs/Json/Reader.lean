import Lipi.Json

/-!
# Reading JSON documents

A reader for documents of text, numbers and objects. It takes blanks wherever they are allowed and
every spelling of a character: as it is, by a letter, or by one or two codes of four digits. The
reader is two machines. One makes lexemes of characters, and the other makes a document of lexemes.
-/

namespace Lipi.Json

/-! ### Characters by their codes -/

/-- Whether a code is the first half of a character beyond 16 bits. -/
def isFirstHalf (code : Nat) : Bool :=
  0xD800 ≤ code && code < 0xDC00

/-- Whether a code is the second half of a character beyond 16 bits. -/
def isSecondHalf (code : Nat) : Bool :=
  0xDC00 ≤ code && code < 0xE000

/-- The text that codes stand for. Halves of characters come in pairs. -/
def ofCodes? : List Nat → Option Text
  | [] => some []
  | code :: codes =>
    if isFirstHalf code then
      match codes with
      | [] => none
      | next :: codes =>
        if isSecondHalf next then
          let joined := 0x10000 + (code - 0xD800) * 0x400 + (next - 0xDC00)
          (ofCodes? codes).map (Char.ofNat joined :: ·)
        else none
    else if isSecondHalf code then none
    else (ofCodes? codes).map (Char.ofNat code :: ·)

/-! ### Lexemes -/

/-- The smallest parts of a document. -/
inductive Lexeme where
  | opening
  | closing
  | colon
  | comma
  | text (content : Text)
  | number (value : Nat)
  deriving DecidableEq, Repr

def isBlank (c : Char) : Bool :=
  c = ' ' || c = '\t' || c = '\n' || c = '\r'

/-- The lexemes of one character. -/
def marks : List (Char × Lexeme) :=
  [('\x7b', .opening), ('\x7d', .closing), (':', .colon), (',', .comma)]

/-- The characters that letters after a backslash stand for. -/
def letters : List (Char × Char) :=
  [('"', '"'), ('\\', '\\'), ('/', '/'), ('b', '\x08'), ('f', '\x0c'), ('n', '\n'), ('r', '\r'),
    ('t', '\t')]

def digit? (c : Char) : Option Nat :=
  if 48 ≤ c.toNat ∧ c.toNat ≤ 57 then some (c.toNat - 48) else none

/-- The value of a hexadecimal digit, in either letter case. -/
def hexDigit? (c : Char) : Option Nat :=
  if 97 ≤ c.toNat ∧ c.toNat ≤ 102 then some (c.toNat - 87)
  else if 65 ≤ c.toNat ∧ c.toNat ≤ 70 then some (c.toNat - 55)
  else digit? c

/-- Where among the lexemes a character stands: between two, in a number, or in a text, after a
backslash there, or in a code of which `left` digits are to come after the next. -/
inductive Mode where
  | between
  | number (value : Nat)
  | text (codes : List Nat)
  | escape (codes : List Nat)
  | code (codes : List Nat) (value left : Nat)
  deriving DecidableEq, Repr

/-- Reads a character between lexemes. -/
def begin? (c : Char) : Option (List Lexeme × Mode) :=
  if isBlank c then some ([], .between)
  else if c = '"' then some ([], .text [])
  else match digit? c with
    | some digit => some ([], .number digit)
    | none => (marks.lookup c).map fun mark => ([mark], .between)

/-- Reads a character. The lexemes are those that it completes. -/
def Mode.step? : Mode → Char → Option (List Lexeme × Mode)
  | between, c => begin? c
  | number value, c =>
    match digit? c with
    -- Only a number of one digit starts with a zero.
    | some digit => if value = 0 then none else some ([], number (10 * value + digit))
    | none => (begin? c).map fun (made, next) => (.number value :: made, next)
  | text codes, c =>
    if c = '"' then (ofCodes? codes).map fun content => ([.text content], between)
    else if c = '\\' then some ([], escape codes)
    else if c.toNat < 0x20 then none
    else some ([], text (codes ++ [c.toNat]))
  | escape codes, c =>
    if c = 'u' then some ([], code codes 0 3)
    else (letters.lookup c).map fun meant => ([], text (codes ++ [meant.toNat]))
  | code codes value left, c =>
    (hexDigit? c).map fun digit =>
      let value := 16 * value + digit
      ([], if left = 0 then text (codes ++ [value]) else code codes value (left - 1))

/-- The lexeme that the end of a document completes. -/
def Mode.finish? : Mode → Option (List Lexeme)
  | between => some []
  | number value => some [.number value]
  | text _ | escape _ | code .. => none

/-- Reads lexemes. -/
def readLexemes : Mode → Text → Option (List Lexeme)
  | mode, [] => mode.finish?
  | mode, c :: rest =>
    (mode.step? c).bind fun (made, next) => (readLexemes next rest).map (made ++ ·)

/-! ### Documents -/

/-- A field of which the value is to come, after other fields of its object. -/
structure OpenField where
  before : List (String × Json)
  name : String

/-- What is to come next. In `outer` stand the fields that enclose it, from the inside. -/
inductive Stage where
  | value (outer : List OpenField)
  | firstName (outer : List OpenField)
  | nextName (outer : List OpenField) (before : List (String × Json))
  | colon (outer : List OpenField) (before : List (String × Json)) (name : String)
  | fieldEnd (outer : List OpenField) (fields : List (String × Json))
  | finished (document : Json)

namespace Stage

/-- What comes after a value. -/
def after (value : Json) : List OpenField → Stage
  | [] => finished value
  | field :: outer => fieldEnd outer (field.before ++ [(field.name, value)])

/-- Reads a lexeme. -/
def step? : Stage → Lexeme → Option Stage
  | value outer, .text content => some (after (.text content) outer)
  | value outer, .number amount => some (after (.number amount) outer)
  | value outer, .opening => some (firstName outer)
  | firstName outer, .closing => some (after (.object []) outer)
  | firstName outer, .text name => some (colon outer [] (String.ofList name))
  | nextName outer before, .text name => some (colon outer before (String.ofList name))
  | colon outer before name, .colon => some (value (⟨before, name⟩ :: outer))
  | fieldEnd outer fields, .comma => some (nextName outer fields)
  | fieldEnd outer fields, .closing => some (after (.object fields) outer)
  | _, _ => none

/-- The document, if all of it has been read. -/
def document? : Stage → Option Json
  | finished document => some document
  | _ => none

end Stage

/-- Reads a document. -/
def parse? (text : Text) : Option Json := do
  let lexemes ← readLexemes .between text
  (← lexemes.foldlM Stage.step? (.value [])).document?

end Lipi.Json
