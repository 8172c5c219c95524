import Lipi.Diagnostic
import Lipi.Keyword
import Lipi.Text.Search

/-!
# Branches

A line with a conditional keyword has to open a block after a condition in parentheses, and a line
with an alternate keyword has to open a block without a condition. Whether a line is well shaped
depends on the line alone.
-/

namespace Lipi.Text

/-- What follows a condition, read from after its opening parenthesis. A condition has no
parentheses in it except after a backslash. -/
def afterCondition? : Text → Option Text
  | [] => none
  | c :: text =>
    if c = ')' then some text
    else if c = '(' then none
    else if c = '\\' then
      match text with
      | [] => none
      | _ :: rest => afterCondition? rest
    else afterCondition? text

/-- Whether the text, after white space, starts with the character. -/
def opensWith (c : Char) (text : Text) : Bool :=
  (trimStart text).head? = some c

/-- Whether the text starts with a condition in parentheses and an opening brace. -/
def opensConditionalBlock (text : Text) : Bool :=
  match trimStart text with
  | c :: condition => c = '(' && (afterCondition? condition).any (opensWith '{')
  | [] => false

/-- The fault of a line whose conditional keywords all lack a condition or a block, with the
offset of the first of them. -/
def conditionalFault? (line : Text) : Option (Fault × Nat) :=
  match cut? Keyword.conditional.spelling line with
  | none => none
  | some (before, _) =>
    if (followers Keyword.conditional.spelling line).any opensConditionalBlock then none
    else some (.conditionalShape, byteLength before)

/-- The fault of a line with an alternate keyword that has a condition or no block, with the
offset of the first such keyword. -/
def alternateFault? (line : Text) : Option (Fault × Nat) :=
  match cut? Keyword.alternate.spelling line with
  | none => none
  | some (before, _) =>
    if (followers Keyword.alternate.spelling line).any (opensWith '(') then
      some (.alternateCondition, byteLength before)
    else if '{' ∈ line then none
    else some (.alternateShape, byteLength before)

/-- The first fault in the shape of a line. -/
def branchFault? (line : Text) : Option (Fault × Nat) :=
  (conditionalFault? line).or (alternateFault? line)

/-- Refuses a text with an ill-shaped line. Since equal lines have equal faults, the first
ill-shaped line is the first one with its text, and is found again by it. -/
def checkBranches (text : Text) : Except Rejection Unit :=
  let pieces := lines text
  match pieces.findSome? fun line => (branchFault? line).map (line, ·) with
  | none => .ok ()
  | some (line, fault, within) =>
    .error (.locate fault text ((lineStart? line pieces).getD 0 + within))

end Lipi.Text
