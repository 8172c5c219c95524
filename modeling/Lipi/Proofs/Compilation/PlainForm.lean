import Lipi.Proofs.Compilation.Surroundings
import Lipi.Proofs.Token.Rewriting

/-!
# Compilation line by line

Every line of a program is brought into plain form and rewritten by itself, so a compiled program
has the lines of its source in the same places (`compile_line_by_line`). In plain form every line is
empty or ends a statement, and normalizing it again changes nothing. All that can still be refused
in it is a start marker, which a program may hold between its own markers
(`normalization_result_plain`).
-/

namespace Lipi

/-! ### Lines of a compiled program -/

/-- A compiled program has as many lines as the program it comes from, and each of them depends on
the line in its place alone. -/
theorem compile_line_by_line {options : CompileOptions} {source js : Text}
    (compiled : (compile options source).result = .ok js) :
    ∃ program, Text.extractProgram source = .ok program ∧
      (Text.lines js).length = (Text.lines program).length ∧
      ∀ (i : Nat) (line : Text), (Text.lines program)[i]? = some line →
        (Text.lines js)[i]? =
          some (Text.replaceKeywords (Text.terminateLine (Text.stripLine line))) := by
  obtain ⟨program, found, -, rfl⟩ := compile_eq_ok_iff.mp compiled
  have pieces : Text.lines (Text.replaceKeywords (Text.normalize program)) =
      (Text.lines program).map fun line => Text.replaceKeywords (Text.normalizeLine line) := by
    rw [Text.lines_replaceKeywords, Text.lines_normalize, List.map_map]
    rfl
  refine ⟨program, found, ?_, ?_⟩
  · rw [pieces, List.length_map]
  · intro i line present
    rw [pieces, List.getElem?_map, present]
    rfl

/-- A program between markers with a comment, an empty line and keywords at the ends of lines. -/
def markedBreak : Text :=
  "आरम्भ x = सत्य\nयावत् (x) \x7b // y\n\n\tविराम\n\x7d समाप्त".toList

theorem markedBreak_line_by_line :
    ∃ js program, (compile {} markedBreak).result = .ok js ∧
      Text.extractProgram markedBreak = .ok program ∧
      (Text.lines js).length = (Text.lines program).length ∧
      (Text.lines program)[3]? = some "\tविराम".toList ∧
      (Text.lines js)[3]? =
        some (Text.replaceKeywords (Text.terminateLine (Text.stripLine "\tविराम".toList))) := by
  have compiled : (compile {} markedBreak).result =
      .ok "x = true;\nwhile (x) \x7b \n\n\tbreak;\n\x7d".toList := by decide +kernel
  have extracted : Text.extractProgram markedBreak =
      .ok "x = सत्य\nयावत् (x) \x7b // y\n\n\tविराम\n\x7d".toList := by decide +kernel
  have fourth : (Text.lines "x = सत्य\nयावत् (x) \x7b // y\n\n\tविराम\n\x7d".toList)[3]? =
      some "\tविराम".toList := by decide +kernel
  obtain ⟨program, found, count, lineByLine⟩ := compile_line_by_line compiled
  obtain rfl := Except.ok.inj (extracted.symm.trans found)
  exact ⟨_, _, compiled, extracted, count, fourth, lineByLine 3 _ fourth⟩

/-! ### Programs in plain form -/

/-- A program in plain form ends its statements, has no comment and no end marker, and stays as it is
unless it has a start marker. Then it is refused there, as the marker has no partner. -/
theorem normalization_result_plain {source plain : Text}
    (normalized : (Stage.run Stage.normalization source).result = .ok plain) :
    (∀ line ∈ Text.lines plain,
      line = [] ∨ ∃ c ∈ ['{', '}', ';'], (Text.trim line).getLast? = some c) ∧
    Text.stripComments plain = plain ∧
    ¬ endMarker <:+: plain ∧
    (¬ startMarker <:+: plain → (Stage.run Stage.normalization plain).result = .ok plain) ∧
    (startMarker <:+: plain → ∃ offset rejection, plain.FirstAt startMarker offset ∧
      (Stage.run Stage.normalization plain).result = .error rejection ∧ rejection.kind = .markers ∧
      rejection.diagnostic = .locate
        (String.ofList endMarker ++ " found without " ++ String.ofList startMarker) plain offset) := by
  obtain ⟨program, found, rfl⟩ := Stage.normalization_eq_ok_iff.mp normalized
  have noEnd := Text.endMarker_absent_of_normalize (Text.endMarker_absent_of_extractProgram found)
  refine ⟨?_, Text.stripComments_normalize program, noEnd, ?_, ?_⟩
  · intro line member
    rw [Text.lines_normalize] at member
    obtain ⟨original, -, rfl⟩ := List.mem_map.mp member
    rcases Text.normalizeLine_cases original with blank | ⟨c, last, ends⟩
    · exact .inl blank
    · exact .inr ⟨c, Text.endsStatement_iff.mp ends, by rw [Text.getLast?_trim, last]⟩
  · intro noStart
    exact Stage.normalization_eq_ok_iff.mpr ⟨_, Text.extractProgram_of_no_marker noStart noEnd,
      (Text.normalize_normalize program).symm⟩
  · intro present
    obtain ⟨offset, first, refused⟩ := Text.extractProgram_of_no_end present noEnd
    refine ⟨offset, .locate .endMissing _ offset, first, ?_, rfl, rfl⟩
    rw [Stage.result_run_normalization, refused]
    rfl

/-- Lines that a terminator is added to behind an open quote, a slash and a backslash. -/
def openEnds : Text :=
  "x = 'a // b\ny / // c\nz \\".toList

def terminatedEnds : Text :=
  "x = 'a // b;\ny / ;\nz \\;".toList

/-- A second start marker is part of the program. -/
def restarted : Text :=
  "आरम्भ a\n आरम्भ '//' // b\n\nसमाप्त".toList

theorem openEnds_plain_and_restarted_refused :
    (Stage.run Stage.normalization openEnds).result = .ok terminatedEnds ∧
      (Stage.run Stage.normalization terminatedEnds).result = .ok terminatedEnds ∧
      ∃ plain, (Stage.run Stage.normalization restarted).result = .ok plain ∧
        ∃ offset rejection, plain.FirstAt startMarker offset ∧
          (Stage.run Stage.normalization plain).result = .error rejection ∧
          rejection.kind = .markers ∧
          rejection.diagnostic = .locate
            (String.ofList endMarker ++ " found without " ++ String.ofList startMarker) plain
            offset := by
  have ended : (Stage.run Stage.normalization openEnds).result = .ok terminatedEnds := by
    decide +kernel
  have again : (Stage.run Stage.normalization restarted).result =
      .ok "a;\n आरम्भ '//' ;".toList := by decide +kernel
  obtain ⟨-, -, -, stays, -⟩ := normalization_result_plain ended
  obtain ⟨-, -, -, -, refused⟩ := normalization_result_plain again
  refine ⟨ended, stays (Text.cut?_eq_none_iff.mp (by decide)), _, again, refused ?_⟩
  exact ⟨"a;\n ".toList, " '//' ;".toList, by decide⟩

end Lipi
