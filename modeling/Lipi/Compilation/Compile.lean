import Lipi.Compilation.Event

/-!
# Compilation

`run` takes a text through a list of stages up to the first failure, and `compile` takes a source
text through all stages of compilation. Both log what they do.
-/

namespace Lipi

namespace Stage

/-- Takes a text through stages. Each stage is logged before it runs, and the one that fails is
logged again. -/
def run : List Stage → Text → Logged (Except Rejection Text)
  | [], text => ⟨[], .ok text⟩
  | stage :: rest, text =>
    match stage.apply text with
    | .ok next =>
      let later := run rest next
      ⟨.runningStage stage :: later.events, later.result⟩
    | .error rejection =>
      ⟨[.runningStage stage, .stageFailed stage rejection.kind], .error rejection⟩

end Stage

/-- The choices a compilation leaves open. -/
structure CompileOptions where
  loopTracking : LoopTracking := .blockStack
  deriving DecidableEq, Repr

/-- Compiles a source text to JavaScript, and logs its size before and after. -/
def compile (options : CompileOptions) (source : Text) : Logged (Except Rejection Text) :=
  let run := Stage.run (Stage.compilation options.loopTracking) source
  let ending := match run.result with
    | .ok program => [.compiled (Text.byteLength program)]
    | .error _ => []
  ⟨.compiling (Text.byteLength source) :: run.events ++ ending, run.result⟩

end Lipi
