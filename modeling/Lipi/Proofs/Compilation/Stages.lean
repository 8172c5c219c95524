import Lipi.Compilation.Compile
import Lipi.Proofs.Program.Normalization

/-!
# What the stages of compilation do together

A run of stages hands the text of each stage to the next. For the stages of compilation this
leaves four steps: find the program, bring it into plain form, let three checks see the plain form,
and replace its keywords (`compile_eq_ok_iff`, `compile_error_cases`).
-/

namespace Lipi

theorem Stage.result_run_cons (stage : Stage) (rest : List Stage) (text : Text) :
    (Stage.run (stage :: rest) text).result =
      (stage.apply text).bind fun next => (Stage.run rest next).result := by
  rw [Stage.run]
  cases stage.apply text <;> rfl

theorem Stage.bind_checked (check : Text → Except Rejection Unit) (text : Text)
    (next : Text → Except Rejection Text) :
    (Stage.checked check text).bind next = (check text).bind fun _ => next text := by
  unfold Stage.checked
  cases check text <;> rfl

/-- The checks of a program in plain form, one after the other. -/
def Text.validate (tracking : LoopTracking) (text : Text) : Except Rejection Unit :=
  (checkBranches text).bind fun _ =>
    (checkBraces text).bind fun _ => checkLoopControl tracking text

theorem Text.validate_eq_ok_iff {tracking : LoopTracking} {text : Text} :
    validate tracking text = .ok () ↔
      checkBranches text = .ok () ∧ checkBraces text = .ok () ∧
        checkLoopControl tracking text = .ok () := by
  unfold validate
  cases checkBranches text <;> cases checkBraces text <;> simp [Except.bind]

theorem Text.validate_error_cases {tracking : LoopTracking} {text : Text} {rejection : Rejection}
    (refused : validate tracking text = .error rejection) :
    checkBranches text = .error rejection ∨ checkBraces text = .error rejection ∨
      checkLoopControl tracking text = .error rejection := by
  unfold validate at refused
  cases branches : checkBranches text with
  | error first => rw [branches] at refused; exact Or.inl refused
  | ok _ =>
    rw [branches] at refused
    cases braces : checkBraces text with
    | error second => rw [braces] at refused; exact Or.inr (Or.inl refused)
    | ok _ => rw [braces] at refused; exact Or.inr (Or.inr refused)

theorem Stage.result_run_normalization (source : Text) :
    (Stage.run Stage.normalization source).result =
      (Text.extractProgram source).map Text.normalize := by
  simp only [Stage.normalization, Stage.result_run_cons, Stage.apply]
  cases Text.extractProgram source <;> rfl

theorem Stage.normalization_eq_ok_iff {source plain : Text} :
    (Stage.run Stage.normalization source).result = .ok plain ↔
      ∃ program, Text.extractProgram source = .ok program ∧ plain = Text.normalize program := by
  rw [Stage.result_run_normalization]
  cases Text.extractProgram source with
  | error rejection => simp [Except.map]
  | ok program => simp [Except.map, eq_comm]

theorem compile_result (options : CompileOptions) (source : Text) :
    (compile options source).result =
      (Text.extractProgram source).bind fun program =>
        (Text.validate options.loopTracking (Text.normalize program)).map fun _ =>
          Text.replaceKeywords (Text.normalize program) := by
  simp only [compile, Stage.compilation, Stage.normalization, List.cons_append, List.nil_append,
    Stage.result_run_cons, Stage.apply, Stage.bind_checked]
  cases Text.extractProgram source with
  | error rejection => rfl
  | ok program =>
    change (Text.checkBranches (Text.normalize program)).bind _ =
      (Text.validate options.loopTracking (Text.normalize program)).map _
    unfold Text.validate
    cases Text.checkBranches (Text.normalize program) with
    | error rejection => rfl
    | ok _ =>
      change (Text.checkBraces (Text.normalize program)).bind _ =
        ((Text.checkBraces (Text.normalize program)).bind _).map _
      cases Text.checkBraces (Text.normalize program) with
      | error rejection => rfl
      | ok _ =>
        change (Text.checkLoopControl options.loopTracking (Text.normalize program)).bind _ =
          (Text.checkLoopControl options.loopTracking (Text.normalize program)).map _
        cases Text.checkLoopControl options.loopTracking (Text.normalize program) <;> rfl

theorem compile_eq_ok_iff {options : CompileOptions} {source js : Text} :
    (compile options source).result = .ok js ↔
      ∃ program, Text.extractProgram source = .ok program ∧
        Text.validate options.loopTracking (Text.normalize program) = .ok () ∧
          js = Text.replaceKeywords (Text.normalize program) := by
  rw [compile_result]
  cases Text.extractProgram source with
  | error rejection => simp [Except.bind]
  | ok program =>
    cases checks : Text.validate options.loopTracking (Text.normalize program) with
    | error rejection => simp [Except.bind, Except.map, checks]
    | ok _ => simp [Except.bind, Except.map, checks, eq_comm]

theorem compile_error_cases {options : CompileOptions} {source : Text} {rejection : Rejection}
    (refused : (compile options source).result = .error rejection) :
    Text.extractProgram source = .error rejection ∨
      ∃ program, Text.extractProgram source = .ok program ∧
        Text.validate options.loopTracking (Text.normalize program) = .error rejection := by
  rw [compile_result] at refused
  cases found : Text.extractProgram source with
  | error first => rw [found] at refused; exact Or.inl (by simpa [Except.bind] using refused)
  | ok program =>
    refine Or.inr ⟨program, rfl, ?_⟩
    rw [found] at refused
    cases checks : Text.validate options.loopTracking (Text.normalize program) with
    | error second => simpa [Except.bind, Except.map, checks] using refused
    | ok _ => simp [Except.bind, Except.map, checks] at refused

end Lipi
