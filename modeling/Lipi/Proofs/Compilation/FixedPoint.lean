import Lipi.Proofs.Compilation.Surroundings
import Lipi.Proofs.Program.Brace
import Lipi.Proofs.Program.FaultPlace
import Lipi.Proofs.Token.Rewriting

/-!
# Compiled programs are left alone

A compiled program is in plain form and has no keyword left, so the stages of compilation find
nothing to do in it. What could still be refused in it are words that are not rewritten, since
markers, branches and loop control are told by substrings. Without these words, compiling it again
gives it back.
-/

namespace Lipi

namespace Text

theorem endMarker_absent_of_replaceKeywords {text : Text} (absent : ¬ endMarker <:+: text) :
    ¬ endMarker <:+: replaceKeywords text :=
  fun present => absent (isInfix_of_replaceKeywords (List.all_eq_true.mp (by decide))
    ⟨'स', by decide, by decide⟩ present)

end Text

/-! ### Checks that find none of their words -/

/-- The words that a start of a program, branches and loop control are told by. -/
def checkedWords : List Text :=
  [startMarker, Keyword.conditional.spelling, Keyword.alternate.spelling,
    Keyword.breakLoop.spelling, Keyword.continueLoop.spelling]

theorem Fault.token_mem_checkedWords {fault : Fault}
    (kind : fault.kind = .branches ∨ fault.kind = .loopControl) {token : Text}
    (member : token ∈ fault.tokens) : token ∈ checkedWords := by
  revert token
  cases fault <;> revert kind <;> decide

/-- A check that refuses texts only at checked words accepts a text without them. -/
theorem ok_of_checkedWords_absent {text : Text} {check : Except Rejection Unit} {kind : FaultKind}
    (refuses : ∀ rejection, check = .error rejection →
      rejection.kind = kind ∧ rejection.Located text)
    (checked : kind = .branches ∨ kind = .loopControl)
    (absent : ∀ word ∈ checkedWords, ¬ word <:+: text) : check = .ok () := by
  cases result : check with
  | ok _ => rfl
  | error rejection =>
    obtain ⟨rfl, offset, -, token, member, occurs⟩ := refuses rejection result
    exact absurd occurs.isInfix (absent token (Fault.token_mem_checkedWords checked member))

/-- A compiled program is a fixed point of every stage that changes texts, its braces match, and it
has no end marker. Without words that the checks look for, it is its own compilation. -/
theorem compile_output_fixed {options : CompileOptions} {source js : Text}
    (compiled : (compile options source).result = .ok js) :
    Text.stripComments js = js ∧ Text.terminateStatements js = js ∧ Text.checkBraces js = .ok () ∧
      Text.replaceKeywords js = js ∧ ¬ endMarker <:+: js ∧
      ((∀ word ∈ checkedWords, ¬ word <:+: js) →
        ∀ again : CompileOptions, (compile again js).result = .ok js) := by
  obtain ⟨program, found, checks, rfl⟩ := compile_eq_ok_iff.mp compiled
  obtain ⟨-, braces, -⟩ := Text.validate_eq_ok_iff.mp checks
  have stripped : Text.stripComments (Text.replaceKeywords (Text.normalize program)) =
      Text.replaceKeywords (Text.normalize program) := by
    rw [Text.stripComments_replaceKeywords, Text.stripComments_normalize]
  have terminated : Text.terminateStatements (Text.replaceKeywords (Text.normalize program)) =
      Text.replaceKeywords (Text.normalize program) := by
    rw [Text.terminateStatements_replaceKeywords, Text.terminateStatements_normalize]
  have balanced : Text.checkBraces (Text.replaceKeywords (Text.normalize program)) = .ok () := by
    rw [Text.checkBraces_eq_ok_iff, Text.balanced_replaceKeywords]
    exact Text.checkBraces_eq_ok_iff.mp braces
  have rewritten := Text.replaceKeywords_replaceKeywords (Text.normalize program)
  have noEnd := Text.endMarker_absent_of_replaceKeywords
    (Text.endMarker_absent_of_normalize (Text.endMarker_absent_of_extractProgram found))
  refine ⟨stripped, terminated, balanced, rewritten, noEnd, ?_⟩
  intro absent again
  -- Nothing is left to do in the second compilation, and no check finds a word of its own.
  have plain : Text.normalize (Text.replaceKeywords (Text.normalize program)) =
      Text.replaceKeywords (Text.normalize program) := by
    rw [Text.normalize, stripped, terminated]
  refine compile_eq_ok_iff.mpr ⟨_, Text.extractProgram_of_no_marker ?_ noEnd, ?_, ?_⟩
  · exact absent startMarker (by simp [checkedWords])
  · rw [plain, Text.validate_eq_ok_iff]
    exact ⟨ok_of_checkedWords_absent (fun _ => Text.checkBranches_error) (.inl rfl) absent, balanced,
      ok_of_checkedWords_absent (fun _ => Text.checkLoopControl_error) (.inr rfl) absent⟩
  · rw [plain, rewritten]

/-- A program between markers, with a comment, keywords and missing terminators. -/
def markedLoop : Text :=
  "आरम्भ मान x = सत्य // \x7b\nयावत् (x) \x7b\n मुद्रय(मानक)\n\x7d समाप्त".toList

def compiledLoop : Text :=
  "let x = true ;\nwhile (x) \x7b\n console.log(मानक);\n\x7d".toList

theorem compiledLoop_fixed :
    (compile {} markedLoop).result = .ok compiledLoop ∧
      ∀ again : CompileOptions, (compile again compiledLoop).result = .ok compiledLoop := by
  have compiled : (compile {} markedLoop).result = .ok compiledLoop := by decide +kernel
  obtain ⟨-, -, -, -, -, again⟩ := compile_output_fixed compiled
  refine ⟨compiled, again fun word member => Text.cut?_eq_none_iff.mp ?_⟩
  revert word
  decide

end Lipi
