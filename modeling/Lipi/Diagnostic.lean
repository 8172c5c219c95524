import Lipi.Position
import Lipi.Text.Space

/-!
# Diagnostics

A fault is a reason for which a program is refused. A rejection is a fault at a place, and a
diagnostic is what is shown of it: a message, the place, and a short form of the line.
-/

namespace Lipi

/-! ### Program markers -/

/-- Opens the program in a source text. -/
def startMarker : Text := "आरम्भ".toList

/-- Closes the program in a source text. -/
def endMarker : Text := "समाप्त".toList

/-! ### Faults -/

/-- The part of the language that a fault concerns. -/
inductive FaultKind where
  | markers
  | branches
  | braces
  | loopControl
  deriving DecidableEq, Repr

/-- The name under which a kind of fault is reported. -/
def FaultKind.name : FaultKind → String
  | markers => "boundary"
  | branches => "shape"
  | braces => "structure"
  | loopControl => "loop-control"

/-- A reason for which a program is refused. -/
inductive Fault where
  | endMissing
  | startMissing
  | markersReversed
  | conditionalShape
  | alternateCondition
  | alternateShape
  | unmatchedClosing
  | unmatchedOpening
  | outsideLoop
  deriving DecidableEq, Repr

namespace Fault

def kind : Fault → FaultKind
  | endMissing | startMissing | markersReversed => .markers
  | conditionalShape | alternateCondition | alternateShape => .branches
  | unmatchedClosing | unmatchedOpening => .braces
  | outsideLoop => .loopControl

/-- What is said of a fault. A missing marker is named before the one that is there. -/
def message : Fault → String
  | endMissing => String.ofList endMarker ++ " found without " ++ String.ofList startMarker
  | startMissing => String.ofList startMarker ++ " found without " ++ String.ofList endMarker
  | markersReversed => "invalid program boundaries"
  | conditionalShape => "invalid conditional block shape"
  | alternateCondition => "alternate branch cannot have a condition"
  | alternateShape => "invalid alternate block shape"
  | unmatchedClosing => "unmatched closing brace"
  | unmatchedOpening => "unmatched opening brace"
  | outsideLoop => "loop control keyword found outside of loop"

end Fault

/-! ### Diagnostics -/

/-- A message about a place in a text. -/
structure Diagnostic where
  message : String
  position : Position
  snippet : Text
  deriving DecidableEq, Repr

namespace Diagnostic

/-- The most characters of a line that a snippet shows. -/
def snippetWidth : Nat := 60

/-- A line without the white space at its ends, cut short if it is long. -/
def shorten (line : Text) : Text :=
  let trimmed := Text.trim line
  if snippetWidth < trimmed.length then trimmed.take snippetWidth ++ "...".toList else trimmed

/-- The diagnostic for a message about a position. -/
def about (message : String) (position : Position) : Diagnostic :=
  { message, position, snippet := shorten position.lineText }

/-- The diagnostic for a message about the character at an offset. -/
def locate (message : String) (text : Text) (offset : Nat) : Diagnostic :=
  about message (Position.ofOffset text offset)

/-- A diagnostic as one line. -/
def render (diagnostic : Diagnostic) : String :=
  diagnostic.message ++ " at line " ++ toString diagnostic.position.line ++ ", column " ++
    toString diagnostic.position.column ++ " near \"" ++ String.ofList diagnostic.snippet ++ "\""

end Diagnostic

/-- Why and where a program was refused. -/
structure Rejection where
  fault : Fault
  position : Position
  deriving DecidableEq, Repr

namespace Rejection

/-- The rejection for a fault at an offset of a text. -/
def locate (fault : Fault) (text : Text) (offset : Nat) : Rejection :=
  { fault, position := Position.ofOffset text offset }

def kind (rejection : Rejection) : FaultKind :=
  rejection.fault.kind

def diagnostic (rejection : Rejection) : Diagnostic :=
  .about rejection.fault.message rejection.position

end Rejection

end Lipi
