import Lipi.Diagnostic
import Lipi.Text.Search

/-!
# The program in a source text

A source text may hold its program between two markers, with any text around them. Without
markers the whole text is the program.
-/

namespace Lipi.Text

/-- The program of a source text: the text between the first start marker and the first end marker
after it, without the white space at its ends. -/
def extractProgram (source : Text) : Except Rejection Text :=
  match cut? startMarker source, cut? endMarker source with
  | none, none => .ok source
  | some (before, _), none => .error (.locate .endMissing source (byteLength before))
  | none, some (before, _) => .error (.locate .startMissing source (byteLength before))
  | some (before, opened), some _ =>
    match cut? endMarker opened with
    | some (program, _) => .ok (trim program)
    | none => .error (.locate .markersReversed source (byteLength before))

end Lipi.Text
