import Lipi.Diagnostic

/-!
# Braces

Braces have to match over the whole text. Quotes have no influence.
-/

namespace Lipi.Text

/-- The first closing brace without an opening one, or else the last opening brace that stays
open. The text starts at `offset`, and `opened` are the offsets of the braces that are open there,
the innermost first. -/
def braceFault? (offset : Nat) (opened : List Nat) : Text → Option (Fault × Nat)
  | [] => opened.head?.map (.unmatchedOpening, ·)
  | c :: text =>
    if c = '{' then braceFault? (offset + c.utf8Size) (offset :: opened) text
    else if c = '}' then
      match opened with
      | [] => some (.unmatchedClosing, offset)
      | _ :: outer => braceFault? (offset + c.utf8Size) outer text
    else braceFault? (offset + c.utf8Size) opened text

/-- Refuses a text whose braces do not match. -/
def checkBraces (text : Text) : Except Rejection Unit :=
  match braceFault? 0 [] text with
  | none => .ok ()
  | some (fault, offset) => .error (.locate fault text offset)

end Lipi.Text
