import Lipi.Text.Basic

/-!
# Keywords

The ten keywords of the language. Each is spelled in Devanagari and stands for a piece of
JavaScript, its host text.
-/

namespace Lipi

/-- A keyword of the language. -/
inductive Keyword where
  | declare
  | print
  | loop
  | conditional
  | alternate
  | falsity
  | truth
  | null
  | breakLoop
  | continueLoop
  deriving DecidableEq, Repr

namespace Keyword

/-- The keywords, in the order in which listings show them. -/
def all : List Keyword :=
  [declare, print, loop, conditional, alternate, falsity, truth, null, breakLoop, continueLoop]

/-- The name that listings show. -/
def name : Keyword → String
  | declare => "Declare"
  | print => "Print"
  | loop => "Loop"
  | conditional => "Conditional"
  | alternate => "Alternate"
  | falsity => "False"
  | truth => "True"
  | null => "Null"
  | breakLoop => "Break"
  | continueLoop => "Continue"

/-- The word a program writes. -/
def spelling : Keyword → Text
  | declare => "मान".toList
  | print => "मुद्रय".toList
  | loop => "यावत्".toList
  | conditional => "यदि".toList
  | alternate => "अन्यथा".toList
  | falsity => "असत्य".toList
  | truth => "सत्य".toList
  | null => "शून्य".toList
  | breakLoop => "विराम".toList
  | continueLoop => "अग्रिम".toList

/-- The JavaScript that takes the keyword's place. -/
def host : Keyword → Text
  | declare => "let".toList
  | print => "console.log".toList
  | loop => "while".toList
  | conditional => "if".toList
  | alternate => "else".toList
  | falsity => "false".toList
  | truth => "true".toList
  | null => "null".toList
  | breakLoop => "break".toList
  | continueLoop => "continue".toList

/-- The keywords that only make sense inside a loop. -/
def isLoopControl : Keyword → Bool
  | breakLoop | continueLoop => true
  | _ => false

/-- The keyword with a given spelling. -/
def ofSpelling? (word : Text) : Option Keyword :=
  all.find? (·.spelling = word)

theorem mem_all (keyword : Keyword) : keyword ∈ all := by
  cases keyword <;> simp [all]

theorem ofSpelling?_spelling (keyword : Keyword) : ofSpelling? keyword.spelling = some keyword := by
  cases keyword <;> decide

end Keyword

end Lipi
