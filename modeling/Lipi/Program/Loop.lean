import Lipi.Diagnostic
import Lipi.Keyword

/-!
# Loop control

Break and continue keywords have to stand inside a loop. Two ways of telling are offered: one keeps
every open block apart, the other only counts how many loops are open and lets any closing brace
close one.
-/

namespace Lipi

/-- How the loops around a keyword are told. -/
inductive LoopTracking where
  | blockStack
  | counter
  deriving DecidableEq, Repr

namespace LoopTracking

/-- The name under which settings choose it. -/
def name : LoopTracking → String
  | blockStack => "block-stack"
  | counter => "counter"

def all : List LoopTracking := [blockStack, counter]

/-- The tracking with a given name. -/
def ofName? (name : String) : Option LoopTracking :=
  all.find? (·.name = name)

end LoopTracking

/-- An open block. -/
inductive Block where
  | loop
  | other
  deriving DecidableEq, Repr

namespace Text

/-! ### Loop headers -/

/-- The offset of the first opening brace that stands after a closing parenthesis and white space.
The text starts at `offset`. -/
def bodyBrace? (offset : Nat) : Text → Option Nat
  | [] => none
  | c :: text =>
    if c = ')' ∧ (trimStart text).head? = some '{' then
      some (offset + c.utf8Size + byteLength (text.takeWhile isSpace))
    else bodyBrace? (offset + c.utf8Size) text

/-- The offset in a line of the brace that opens a loop's body. The line has to start with the loop
keyword and an opening parenthesis. -/
def headerBrace? (line : Text) : Option Nat :=
  match after? Keyword.loop.spelling (trimStart line) with
  | none => none
  | some header =>
    match trimStart header with
    | [] => none
    | c :: condition =>
      if c = '(' then bodyBrace? (byteLength line - byteLength condition) condition else none

/-! ### Loop-control keywords -/

/-- Whether the text starts with a break or continue keyword. -/
def startsLoopControl (text : Text) : Bool :=
  (Keyword.all.filter Keyword.isLoopControl).any fun keyword =>
    (after? keyword.spelling text).isSome

/-- The offset of the first break or continue keyword. -/
def firstLoopControl? : Text → Option Nat
  | [] => none
  | c :: text =>
    if startsLoopControl (c :: text) then some 0
    else (firstLoopControl? text).map (c.utf8Size + ·)

/-! ### The two trackings -/

/-- The open blocks after a character, where `header` says that it is a loop's brace. -/
def blocksAfter (blocks : List Block) (header : Bool) (c : Char) : List Block :=
  if c = '{' then (if header then .loop else .other) :: blocks
  else if c = '}' then blocks.tail
  else blocks

/-- Goes through a line that starts at `offset` and has its loop's brace at `header`. Gives the
open blocks at its end, or the offset of a keyword with no loop around it. -/
def scanBlocks (header : Option Nat) (offset : Nat) (blocks : List Block) :
    Text → Except Nat (List Block)
  | [] => .ok blocks
  | c :: text =>
    if startsLoopControl (c :: text) ∧ Block.loop ∉ blocks then .error offset
    else
      scanBlocks header (offset + c.utf8Size) (blocksAfter blocks (header = some offset) c) text

/-- One line with every open block kept apart. -/
def trackBlocks (blocks : List Block) (line : Text) : Except Nat (List Block) :=
  scanBlocks (headerBrace? line) 0 blocks line

/-- One line with the open loops counted. The header of a line comes before its keywords, and its
closing braces come after them. -/
def trackDepth (depth : Nat) (line : Text) : Except Nat Nat :=
  let inside := if (headerBrace? line).isSome then depth + 1 else depth
  match firstLoopControl? line with
  | some offset => if inside = 0 then .error offset else .ok (inside - line.count '}')
  | none => .ok (inside - line.count '}')

/-- Goes through lines one by one, and gives the offset of the first failure. -/
def firstFailure? {State : Type} (track : State → Text → Except Nat State) (state : State) :
    List Text → Option Nat
  | [] => none
  | line :: rest =>
    match track state line with
    | .error offset => some offset
    | .ok next => (firstFailure? track next rest).map (byteLength line + 1 + ·)

/-- The offset of the first break or continue keyword that is outside of every loop. -/
def outsideLoop? (tracking : LoopTracking) (text : Text) : Option Nat :=
  match tracking with
  | .blockStack => firstFailure? trackBlocks [] (lines text)
  | .counter => firstFailure? trackDepth 0 (lines text)

/-- Refuses a text with a break or continue keyword outside of every loop. -/
def checkLoopControl (tracking : LoopTracking) (text : Text) : Except Rejection Unit :=
  match outsideLoop? tracking text with
  | none => .ok ()
  | some offset => .error (.locate .outsideLoop text offset)

end Text

end Lipi
