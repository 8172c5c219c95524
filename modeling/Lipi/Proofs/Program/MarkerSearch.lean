import Lipi.Proofs.Compilation.Surroundings
import Lipi.Proofs.Program.FaultPlace
import Lipi.Proofs.Text.Pattern

/-!
# The program between the markers

The program of a source text is what stands between the first start marker and the first end marker
after it. The same program is what a pattern captures: the start marker, white space, any text, white
space and the end marker, where white space takes as much as it can and the text in between as little
(`capturedProgram?_eq`). So the preferences of the pattern come to nothing more than a search for
the two markers and a trim (`program_found_by_search`).
-/

namespace Lipi.Text

open Pattern

/-! ### The pattern of a program -/

/-- A program between its markers. -/
def programPattern : Pattern :=
  [.word startMarker, .most isSpace, .least fun _ => true, .most isSpace, .word endMarker]

/-- The piece between the spaces of the pattern, where it matches first, without the white space at
its ends. -/
def capturedProgram? (source : Text) : Option Text :=
  ((search? programPattern source).bind (·[2]?)).map trim

theorem head?_endMarker_append (after : Text) :
    ∀ c ∈ (endMarker ++ after).head?, isSpace c = false := by
  intro c first
  cases first
  decide

/-- A run of spaces goes no further than to the first character that is none. -/
theorem length_le_of_spaces {gap rest other rest' : Text}
    (visible : ∀ c ∈ rest.head?, isSpace c = false) (same : gap ++ rest = other ++ rest')
    (spaces : ∀ c ∈ other, isSpace c) : other.length ≤ gap.length := by
  rcases List.append_eq_append_iff.mp same with ⟨extra, rfl, rfl⟩ | ⟨extra, rfl, -⟩
  · cases extra with
    | nil => simp
    | cons c extra =>
      have space := spaces c (by simp)
      rw [visible c rfl] at space
      cases space
  · simp

theorem first?_word {word : Text} {text : Text} {pieces : List Text} :
    first? [.word word] text = some pieces ↔ word <+: text ∧ pieces = [word] := by
  rw [first?_cons_iff]
  constructor
  · rintro ⟨taken, rest, later, rfl, rfl, fits, matched, -⟩
    cases matched
    have same : taken = word := fits
    exact ⟨⟨rest, by rw [same]⟩, by rw [same]⟩
  · rintro ⟨⟨rest, rfl⟩, rfl⟩
    exact ⟨word, rest, [], rfl, rfl, rfl, rfl, fun _ _ _ _ prefers => prefers.elim⟩

/-- White space and the end marker match where they stand, and white space takes all there is. -/
theorem first?_end_iff {text : Text} {pieces : List Text} :
    first? [.most isSpace, .word endMarker] text = some pieces ↔
      ∃ gap after, text = gap ++ (endMarker ++ after) ∧ (∀ c ∈ gap, isSpace c) ∧
        pieces = [gap, endMarker] := by
  rw [first?_cons_iff]
  constructor
  · rintro ⟨gap, rest, later, rfl, rfl, spaces, matched, -⟩
    obtain ⟨⟨after, rfl⟩, rfl⟩ := first?_word.mp matched
    exact ⟨gap, after, rfl, spaces, rfl⟩
  · rintro ⟨gap, after, rfl, spaces, rfl⟩
    refine ⟨gap, endMarker ++ after, [endMarker], rfl, rfl, spaces,
      first?_word.mpr ⟨List.prefix_append _ _, rfl⟩, ?_⟩
    intro other rest' same fits longer
    have short := length_le_of_spaces (head?_endMarker_append after) same fits
    exact absurd longer (Nat.not_lt_of_le short)

/-- The least text before white space and the end marker ends with its last visible character. -/
theorem first?_inner {core : Text} (absent : ¬ endMarker <:+: core) (after : Text) :
    ∃ blank, first? [.least fun _ => true, .most isSpace, .word endMarker]
        (core ++ (endMarker ++ after)) = some [trimEnd core, blank, endMarker] := by
  obtain ⟨blank, ended, spaces⟩ := exists_eq_trimEnd_append core
  refine ⟨blank, first?_cons_iff.mpr ⟨trimEnd core, blank ++ (endMarker ++ after), _, rfl, ?_, ?_,
    first?_end_iff.mpr ⟨blank, after, rfl, spaces, rfl⟩, ?_⟩⟩
  · rw [← List.append_assoc (trimEnd core), ← ended]
  · exact fun _ _ => rfl
  · intro other rest' same _ shorter
    rw [Option.eq_none_iff_forall_not_mem]
    intro pieces matched
    obtain ⟨gap, after', rfl, gapSpaces, -⟩ := first?_end_iff.mp matched
    -- No end marker comes before `core` ends, so what `core` has past `other` is white space.
    have found : cut? endMarker (core ++ endMarker ++ after) = some (core, after) :=
      cut?_append endMarker_nodup absent after
    obtain ⟨extra, reach⟩ : core <+: other ++ gap :=
      isPrefix_of_cut? found (by simpa using same)
    rcases List.append_eq_append_iff.mp reach with ⟨tail, rfl, -⟩ | ⟨tail, rfl, rfl⟩
    · have longer := ((isPrefix_trimEnd core).trans (List.prefix_append core tail)).length_le
      exact absurd shorter (Nat.not_lt_of_le longer)
    · rw [trimEnd_append_of_isSpace other fun c member => gapSpaces c (by simp [member])] at shorter
      exact absurd shorter (Nat.not_lt_of_le (isPrefix_trimEnd other).length_le)

theorem first?_opened {body : Text} (absent : ¬ endMarker <:+: body) (after : Text) :
    ∃ gap blank, first? [.most isSpace, .least fun _ => true, .most isSpace, .word endMarker]
        (body ++ (endMarker ++ after)) = some [gap, trim body, blank, endMarker] := by
  obtain ⟨gap, started, spaces⟩ := exists_eq_append_trimStart body
  have absent' : ¬ endMarker <:+: trimStart body :=
    fun present => absent (present.trans (isSuffix_trimStart body).isInfix)
  obtain ⟨blank, matched⟩ := first?_inner absent' after
  have whole : body ++ (endMarker ++ after) = gap ++ (trimStart body ++ (endMarker ++ after)) := by
    rw [← List.append_assoc, ← List.append_assoc gap, ← started, List.append_assoc]
  refine ⟨gap, blank, first?_cons_iff.mpr ⟨gap, _, _, rfl, whole, spaces, matched, ?_⟩⟩
  intro other rest' same fits longer
  have visible : ∀ c ∈ (trimStart body ++ (endMarker ++ after)).head?, isSpace c = false := by
    intro c first
    cases shape : trimStart body with
    | nil =>
      rw [shape] at first
      exact head?_endMarker_append after c first
    | cons d rest =>
      rw [shape] at first
      cases first
      exact not_isSpace_of_head?_trimStart (by rw [shape]; rfl)
  rw [whole] at same
  exact absurd longer (Nat.not_lt_of_le (length_le_of_spaces visible same fits))

/-! ### The pattern and the search -/

theorem first?_programPattern {text : Text} {pieces : List Text}
    (found : first? programPattern text = some pieces) :
    ∃ opened, text = startMarker ++ opened ∧ endMarker <:+: opened := by
  obtain ⟨taken, opened, later, -, rfl, fits, matched, -⟩ := first?_cons_iff.mp found
  have same : taken = startMarker := fits
  exact ⟨opened, by rw [same], isInfix_of_first? (by simp) matched⟩

/-- No start marker is before the first one, so the pattern matches there or later. -/
theorem isSuffix_of_programPattern {source before opened taken rest : Text} {pieces : List Text}
    (found : cut? startMarker source = some (before, opened)) (split : source = taken ++ rest)
    (matched : first? programPattern rest = some pieces) :
    before <+: taken ∧ ∃ opened', opened' <:+ opened ∧ endMarker <:+: opened' := by
  obtain ⟨opened', rfl, present⟩ := first?_programPattern matched
  have first := isPrefix_of_cut? found (by rw [split, List.append_assoc])
  have sizes := congrArg List.length ((eq_of_cut? found).symm.trans split)
  have tail : opened <:+ source := ⟨before ++ startMarker, (eq_of_cut? found).symm⟩
  have tail' : opened' <:+ source := ⟨taken ++ startMarker, by rw [split, List.append_assoc]⟩
  simp only [List.length_append] at sizes
  have short := first.length_le
  exact ⟨first, opened', List.suffix_of_suffix_length_le tail' tail (by omega), present⟩

/-- The pattern matches first at the first start marker, and there it ends at the first end
marker. -/
theorem capturedProgram?_eq {source before opened : Text}
    (found : cut? startMarker source = some (before, opened)) :
    capturedProgram? source = (cut? endMarker opened).map fun cut => trim cut.1 := by
  unfold capturedProgram? search?
  cases ended : cut? endMarker opened with
  | none =>
    have failed : first? (.least (fun _ => true) :: programPattern) source = none := by
      rw [first?_cons_eq_none_iff]
      intro taken rest split _
      rw [Option.eq_none_iff_forall_not_mem]
      intro pieces matched
      obtain ⟨-, opened', tail, present⟩ := isSuffix_of_programPattern found split matched
      exact cut?_eq_none_iff.mp ended (present.trans tail.isInfix)
    rw [failed]
    rfl
  | some cut =>
    obtain ⟨body, after⟩ := cut
    obtain ⟨gap, blank, matched⟩ := first?_opened (not_isInfix_of_cut? (by decide) ended) after
    rw [← List.append_assoc, ← eq_of_cut? ended] at matched
    have here : first? programPattern (startMarker ++ opened) =
        some [startMarker, gap, trim body, blank, endMarker] :=
      first?_cons_iff.mpr ⟨startMarker, opened, _, rfl, rfl, rfl, matched,
        fun _ _ _ _ prefers => prefers.elim⟩
    have searched : first? (.least (fun _ => true) :: programPattern) source =
        some [before, startMarker, gap, trim body, blank, endMarker] := by
      refine first?_cons_iff.mpr ⟨before, startMarker ++ opened, _, rfl, ?_, fun _ _ => rfl, here, ?_⟩
      · rw [← List.append_assoc, ← eq_of_cut? found]
      · -- A match that starts earlier would start with an earlier marker.
        intro other rest' split _ shorter
        rw [Option.eq_none_iff_forall_not_mem]
        intro pieces matched'
        have first := (isSuffix_of_programPattern found split matched').1
        exact absurd shorter (Nat.not_lt_of_le first.length_le)
    rw [searched]
    simp [trim_trim]

/-! ### What the search finds -/

section Cuts

variable {text first second before opened : Text}

theorem firstFrom_of_cuts {body after : Text} (found : cut? first text = some (before, opened))
    (ended : cut? second opened = some (body, after)) :
    FirstFrom text second (byteLength before + byteLength first)
      (byteLength before + byteLength first + byteLength body) := by
  rw [eq_of_cut? found, ← byteLength_append]
  exact firstFrom_of_cut? ended

theorem slice_of_cuts {body after : Text} (found : cut? first text = some (before, opened))
    (ended : cut? second opened = some (body, after)) :
    Slice text (byteLength before + byteLength first)
      (byteLength before + byteLength first + byteLength body) body := by
  refine ⟨⟨before ++ first, second ++ after, ?_, byteLength_append before first⟩, rfl⟩
  rw [eq_of_cut? found, eq_of_cut? ended]
  simp

theorem not_occursAt_of_cuts (found : cut? first text = some (before, opened))
    (absent : cut? second opened = none) {offset : Nat}
    (late : byteLength before + byteLength first ≤ offset) : ¬ OccursAt text second offset := by
  intro occurs
  obtain ⟨within, rfl⟩ := Nat.exists_eq_add_of_le late
  rw [eq_of_cut? found, ← byteLength_append] at occurs
  exact cut?_eq_none_iff.mp absent occurs.of_append.isInfix

end Cuts

/-- A search for the first markers finds the program, or the place where one of them is missing, in
every source text. With both markers there, it finds what the pattern of a program captures. -/
theorem program_found_by_search (source : Text) :
    (¬ startMarker <:+: source → ¬ endMarker <:+: source → extractProgram source = .ok source) ∧
    (startMarker <:+: source → ¬ endMarker <:+: source →
      ∃ start, FirstAt source startMarker start ∧
        RefusedAt (extractProgram source) .markers
          (String.ofList endMarker ++ " found without " ++ String.ofList startMarker) source start) ∧
    (¬ startMarker <:+: source → endMarker <:+: source →
      ∃ close, FirstAt source endMarker close ∧
        RefusedAt (extractProgram source) .markers
          (String.ofList startMarker ++ " found without " ++ String.ofList endMarker) source close) ∧
    (startMarker <:+: source → endMarker <:+: source →
      (extractProgram source).toOption = capturedProgram? source ∧
      ∃ start, FirstAt source startMarker start ∧
        ((∃ close body, FirstFrom source endMarker (start + byteLength startMarker) close ∧
            Slice source (start + byteLength startMarker) close body ∧
            ¬ endMarker <:+: body ∧ extractProgram source = .ok (trim body)) ∨
          ((∀ close, start + byteLength startMarker ≤ close → ¬ OccursAt source endMarker close) ∧
            RefusedAt (extractProgram source) .markers "invalid program boundaries" source start))) := by
  refine ⟨extractProgram_of_no_marker, ?noEnd, ?noStart, ?both⟩
  case noEnd =>
    intro present noEnd
    obtain ⟨start, first, refused⟩ := extractProgram_of_no_end present noEnd
    exact ⟨start, first, refusedAt_of_locate refused⟩
  case noStart =>
    intro noStart present
    obtain ⟨⟨before, after⟩, found⟩ := exists_cut?_of_present present
    have refused : extractProgram source = .error (.locate .startMissing source (byteLength before)) := by
      simp only [extractProgram, found, cut?_eq_none_iff.mpr noStart]
    exact ⟨byteLength before, firstAt_of_cut? found, refusedAt_of_locate refused⟩
  case both =>
    intro start close
    obtain ⟨⟨before, opened⟩, found⟩ := exists_cut?_of_present start
    obtain ⟨cut, present⟩ := exists_cut?_of_present close
    rw [capturedProgram?_eq found]
    cases ended : cut? endMarker opened with
    | some cut =>
      obtain ⟨body, after⟩ := cut
      have program : extractProgram source = .ok (trim body) := by
        simp only [extractProgram, found, present, ended]
      refine ⟨by rw [program]; rfl, byteLength before, firstAt_of_cut? found, .inl ?_⟩
      exact ⟨_, body, firstFrom_of_cuts found ended, slice_of_cuts found ended,
        not_isInfix_of_cut? (by decide) ended, program⟩
    | none =>
      have refused : extractProgram source =
          .error (.locate .markersReversed source (byteLength before)) := by
        simp only [extractProgram, found, present, ended]
      refine ⟨by rw [refused]; rfl, byteLength before, firstAt_of_cut? found, .inr ?_⟩
      exact ⟨fun close late => not_occursAt_of_cuts found ended late, refusedAt_of_locate refused⟩

end Lipi.Text
