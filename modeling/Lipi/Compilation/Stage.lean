import Lipi.Program.Brace
import Lipi.Program.Branch
import Lipi.Program.Comment
import Lipi.Program.Loop
import Lipi.Program.Markers
import Lipi.Program.Statement
import Lipi.Token

/-!
# Stages

Compilation is a chain of stages. A stage turns a text into another or refuses it. The checking
stages hand on the text that they were given.
-/

namespace Lipi

/-- A step of compilation. -/
inductive Stage where
  | extractProgram
  | stripComments
  | terminateStatements
  | checkBranches
  | checkBraces
  | checkLoopControl (tracking : LoopTracking)
  | replaceKeywords
  deriving DecidableEq, Repr

namespace Stage

/-- The name under which a stage is logged. -/
def name : Stage → String
  | extractProgram => "boundary_extraction"
  | stripComments => "comment_stripping"
  | terminateStatements => "semicolon_normalization"
  | checkBranches => "shape_validation"
  | checkBraces => "structure_validation"
  | checkLoopControl _ => "loop_control_validation"
  | replaceKeywords => "keyword_rewriting"

/-- Hands on the text if the check lets it pass. -/
def checked (check : Text → Except Rejection Unit) (text : Text) : Except Rejection Text :=
  match check text with
  | .ok () => .ok text
  | .error rejection => .error rejection

/-- What a stage does to a text. -/
def apply : Stage → Text → Except Rejection Text
  | extractProgram, text => Text.extractProgram text
  | stripComments, text => .ok (Text.stripComments text)
  | terminateStatements, text => .ok (Text.terminateStatements text)
  | checkBranches, text => checked Text.checkBranches text
  | checkBraces, text => checked Text.checkBraces text
  | checkLoopControl tracking, text => checked (Text.checkLoopControl tracking) text
  | replaceKeywords, text => .ok (Text.replaceKeywords text)

/-- The stages that find the program and give every line its plain form. -/
def normalization : List Stage :=
  [extractProgram, stripComments, terminateStatements]

/-- The stages from a source text to JavaScript. -/
def compilation (tracking : LoopTracking) : List Stage :=
  normalization ++ [checkBranches, checkBraces, checkLoopControl tracking, replaceKeywords]

/-- The stage with a given name. -/
def ofName? (tracking : LoopTracking) (name : String) : Option Stage :=
  (compilation tracking).find? (·.name = name)

end Stage

end Lipi
