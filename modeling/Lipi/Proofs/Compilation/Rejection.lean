import Lipi.Proofs.Compilation.Stages
import Lipi.Proofs.Program.FaultPlace

/-!
# Rejections lead back to the program

A rejection is found in the plain form of a program, but its position is meant for a reader of the
program itself. Bringing a program into plain form moves no token that a fault is about, so the
same position holds in both (`pointsAt_of_normalize`).
-/

namespace Lipi

theorem Position.pointsAt_of_normalize {position : Position} {program token : Text}
    (someChar : token ≠ []) (noTerminator : Text.terminator ∉ token)
    (points : position.PointsAt (Text.normalize program) token) :
    position.PointsAt program token := by
  obtain ⟨linePos, columnPos, plain, present, start⟩ := points
  -- The plain form has the same lines, each brought into plain form by itself.
  rw [Text.lines_normalize, List.getElem?_map] at present
  obtain ⟨line, original, rfl⟩ := Option.map_eq_some_iff.mp present
  exact ⟨linePos, columnPos, line, original,
    Text.isPrefix_of_normalizeLine someChar noTerminator start⟩

theorem Text.validate_error {tracking : LoopTracking} {text : Text} {rejection : Rejection}
    (refused : validate tracking text = .error rejection) :
    rejection.kind ≠ .markers ∧ rejection.Located text := by
  rcases validate_error_cases refused with branches | braces | loops
  · obtain ⟨kind, located⟩ := checkBranches_error branches
    exact ⟨by simp [kind], located⟩
  · obtain ⟨kind, located⟩ := checkBraces_error braces
    exact ⟨by simp [kind], located⟩
  · obtain ⟨kind, located⟩ := checkLoopControl_error loops
    exact ⟨by simp [kind], located⟩

/-- The position of every rejection points at a token that its fault is about. A fault of the
markers is placed in the source text. Any other fault is placed in the plain form that the checks
see, whose line it shows, and at the same line and column in the program with its comments. -/
theorem compile_error_points_at_token {options : CompileOptions} {source : Text}
    {rejection : Rejection} (refused : (compile options source).result = .error rejection) :
    (rejection.kind = .markers →
      ∃ token ∈ rejection.fault.tokens, rejection.position.PointsAt source token) ∧
    (rejection.kind ≠ .markers →
      ∃ program plain, Text.extractProgram source = .ok program ∧
        (Stage.run Stage.normalization source).result = .ok plain ∧
        rejection.position.ShowsLine plain ∧
        ∃ token ∈ rejection.fault.tokens,
          rejection.position.PointsAt plain token ∧
            rejection.position.PointsAt program token) := by
  rcases compile_error_cases refused with markers | ⟨program, found, checks⟩
  · obtain ⟨kind, located⟩ := Text.extractProgram_error markers
    exact ⟨fun _ => located.pointsAt.2, fun other => absurd kind other⟩
  · obtain ⟨kind, located⟩ := Text.validate_error checks
    obtain ⟨shows, token, member, points⟩ := located.pointsAt
    refine ⟨fun markers => absurd markers kind, fun _ => ?_⟩
    refine ⟨program, Text.normalize program, found, ?_, shows, token, member, points, ?_⟩
    · rw [Stage.result_run_normalization, found]
      rfl
    · exact Position.pointsAt_of_normalize (Fault.token_ne_nil member)
        (Fault.terminator_not_mem_token member) points

/-- A conditional without its condition, after text of several bytes a character and a comment. -/
theorem conditional_after_comment_points_at_token :
    ∃ rejection, (compile {} "मान y // यदि\n\tज्ञ यदि x \x7b".toList).result = .error rejection ∧
      rejection.kind ≠ .markers ∧ rejection.position.line = 2 ∧ rejection.position.column = 6 ∧
      ∃ program plain, Text.extractProgram "मान y // यदि\n\tज्ञ यदि x \x7b".toList = .ok program ∧
        (Stage.run Stage.normalization "मान y // यदि\n\tज्ञ यदि x \x7b".toList).result = .ok plain ∧
        rejection.position.ShowsLine plain ∧
        ∃ token ∈ rejection.fault.tokens,
          rejection.position.PointsAt plain token ∧
            rejection.position.PointsAt program token := by
  have refused : (compile {} "मान y // यदि\n\tज्ञ यदि x \x7b".toList).result =
      .error ⟨.conditionalShape, 2, 6, "\tज्ञ यदि x \x7b".toList⟩ := by decide +kernel
  exact ⟨_, refused, by decide, rfl, rfl, (compile_error_points_at_token refused).2 (by decide)⟩

end Lipi
