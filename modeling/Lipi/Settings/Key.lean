import Lipi.Text.Basic

/-!
# Keys of settings

A setting is found by steps: to a name in a table, or to a place in a list. A key is written with
dots before names and brackets around places. Letter case does not count.
-/

namespace Lipi.Settings

/-- The lower-case form of a character. Of the characters beyond ASCII only the Kelvin sign has an
ASCII letter for it; the others cannot occur in the name of a setting. -/
def foldChar (c : Char) : Char :=
  if c = '\u212a' then 'k' else c.toLower

/-- A name without regard to letter case. -/
def foldCase (name : String) : String :=
  String.ofList (name.toList.map foldChar)

/-- A step on the way to a setting. Places count from 0, and negative ones from the end. -/
inductive Step where
  | name (name : String)
  | place (index : Int)
  deriving DecidableEq, Repr

/-- The steps to a setting. -/
abbrev Key := List Step

namespace Key

/-- The characters of names in a written key. A space is one of them. -/
def isNameChar (c : Char) : Bool :=
  c.isAlphanum || c = '_' || c = '-' || c = ' '

def isBlank (c : Char) : Bool :=
  c = ' ' || c = '\t'

/-- Places are less than this, and not less than its negative. -/
def placeBound : Nat := Nat.pow 2 63

/-- The place that stands between brackets: digits after an optional minus sign, with blanks around
them. -/
def place? (content : Text) : Option Int :=
  let trimmed := ((content.dropWhile isBlank).reverse.dropWhile isBlank).reverse
  let negative := trimmed.head? = some '-'
  let digits := if negative then trimmed.drop 1 else trimmed
  let magnitude : Nat := digits.foldl (fun value c => value * 10 + (c.toNat - 48)) 0
  let index : Int := if negative then -magnitude else magnitude
  if digits ≠ [] ∧ digits.all Char.isDigit ∧ -placeBound ≤ index ∧ index < placeBound then
    some index
  else none

/-- What is being read of a key: a name or a place, of which some characters have been read, the
last one first, or the end of a step. -/
inductive Part where
  | name (read : Text)
  | place (read : Text)
  | stepEnd
  deriving DecidableEq, Repr

/-- The part that a character after a step begins. -/
def nextPart? (c : Char) : Option Part :=
  if c = '.' then some (.name []) else if c = '[' then some (.place []) else none

/-- Reads the steps of a key, from within a part. -/
def readSteps : Part → Text → Option Key
  | .name read, [] => if read.isEmpty then none else some [.name (String.ofList read.reverse)]
  | .name read, c :: text =>
    if isNameChar c then readSteps (.name (c :: read)) text
    else if read.isEmpty then none
    else match nextPart? c with
      | some part => (readSteps part text).map (.name (String.ofList read.reverse) :: ·)
      | none => none
  | .place _, [] => none
  | .place read, c :: text =>
    if c = ']' then
      match place? read.reverse with
      | some index => (readSteps .stepEnd text).map (.place index :: ·)
      | none => none
    else readSteps (.place (c :: read)) text
  | .stepEnd, [] => some []
  | .stepEnd, c :: text =>
    match nextPart? c with
    | some part => readSteps part text
    | none => none

/-- Reads a key, which starts with a name. -/
def parse? (key : String) : Option Key :=
  readSteps (.name []) key.toList

/-- Reads a key, or takes what is not one for a single name. -/
def parse (key : String) : Key :=
  (parse? key).getD [.name key]

end Key

end Lipi.Settings
