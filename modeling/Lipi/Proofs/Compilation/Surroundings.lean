import Lipi.Proofs.Compilation.Stages

/-!
# Text around the program

A source text may hold anything around its program. The markers are found by their first
occurrences (`extractProgram_between`), so nothing outside of them has an influence on what a
compilation gives.
-/

namespace Lipi

theorem startMarker_nodup : startMarker.Nodup := by decide

theorem endMarker_nodup : endMarker.Nodup := by decide

namespace Text

theorem extractProgram_of_no_marker {source : Text} (noStart : ¬ startMarker <:+: source)
    (noEnd : ¬ endMarker <:+: source) : extractProgram source = .ok source := by
  simp only [extractProgram, cut?_eq_none_iff.mpr noStart, cut?_eq_none_iff.mpr noEnd]

/-- A start marker without an end marker is where the program is refused. -/
theorem extractProgram_of_no_end {source : Text} (present : startMarker <:+: source)
    (noEnd : ¬ endMarker <:+: source) :
    ∃ offset, source.FirstAt startMarker offset ∧
      extractProgram source = .error (.locate .endMissing source offset) := by
  obtain ⟨⟨before, after⟩, found⟩ := exists_cut?_of_present present
  refine ⟨byteLength before, firstAt_of_cut? found, ?_⟩
  simp only [extractProgram, found, cut?_eq_none_iff.mpr noEnd]

/-- The program ends at the first end marker after the first start marker. -/
theorem extractProgram_between {before body : Text} (noStart : ¬ startMarker <:+: before)
    (noEnd : ¬ endMarker <:+: body) (after : Text) :
    extractProgram (before ++ startMarker ++ body ++ endMarker ++ after) = .ok (trim body) := by
  have opened : cut? startMarker (before ++ startMarker ++ body ++ endMarker ++ after) =
      some (before, body ++ endMarker ++ after) := by
    have first := cut?_append startMarker_nodup noStart (body ++ endMarker ++ after)
    simpa using first
  have closed : cut? endMarker (body ++ endMarker ++ after) = some (body, after) :=
    cut?_append endMarker_nodup noEnd after
  obtain ⟨cut, ended⟩ :
      ∃ cut, cut? endMarker (before ++ startMarker ++ body ++ endMarker ++ after) = some cut :=
    exists_cut?_of_present ⟨before ++ startMarker ++ body, after, rfl⟩
  simp only [extractProgram, opened, ended, closed]

theorem extractProgram_trim {body : Text} (noStart : ¬ startMarker <:+: body)
    (noEnd : ¬ endMarker <:+: body) : extractProgram (trim body) = .ok (trim body) :=
  extractProgram_of_no_marker (fun present => noStart (present.trans (isInfix_trim body)))
    (fun present => noEnd (present.trans (isInfix_trim body)))

theorem endMarker_absent_of_extractProgram {source program : Text}
    (found : extractProgram source = .ok program) : ¬ endMarker <:+: program := by
  unfold extractProgram at found
  split at found
  · rename_i absent
    cases found
    exact cut?_eq_none_iff.mp absent
  · cases found
  · cases found
  · split at found
    · rename_i closed
      cases found
      exact fun present => not_isInfix_of_cut? (by decide) closed (present.trans (isInfix_trim _))
    · cases found

theorem endMarker_absent_of_normalize {program : Text} (absent : ¬ endMarker <:+: program) :
    ¬ endMarker <:+: normalize program :=
  fun present => absent (isInfix_of_normalize (by decide) (by decide) (by decide) present)

end Text

/-- A program between markers gives what the program alone gives: the same JavaScript, or the same
rejection at the same position. -/
theorem compile_between_markers (options : CompileOptions) {before body : Text}
    (beforeStart : ¬ startMarker <:+: before) (bodyStart : ¬ startMarker <:+: body)
    (bodyEnd : ¬ endMarker <:+: body) (after : Text) :
    (compile options (before ++ startMarker ++ body ++ endMarker ++ after)).result =
      (compile options (Text.trim body)).result := by
  rw [compile_result, compile_result, Text.extractProgram_between beforeStart bodyEnd after,
    Text.extractProgram_trim bodyStart bodyEnd]

/-- End markers in front of the program and more of both markers after it change nothing. -/
theorem compile_between_markers_among_others :
    (compile { loopTracking := .counter }
        ("समाप्त आरम्".toList ++ startMarker ++ "\n विराम ".toList ++ endMarker ++
          "समाप्त आरम्भ \x7d".toList)).result =
      (compile { loopTracking := .counter } (Text.trim "\n विराम ".toList)).result :=
  compile_between_markers _ (Text.cut?_eq_none_iff.mp (by decide))
    (Text.cut?_eq_none_iff.mp (by decide)) (Text.cut?_eq_none_iff.mp (by decide)) _

end Lipi
