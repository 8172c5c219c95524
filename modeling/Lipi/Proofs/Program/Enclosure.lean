import Lipi.Proofs.Program.LoopHits
import Lipi.Proofs.Program.OpenBlocks
import Lipi.Proofs.Text.BracketPairs
import Lipi.Proofs.Token.Runs

/-!
# Keywords enclosed by loops

The check of loop control goes through a text once and keeps the blocks that are open. Seen from
outside, all braces of the text have been paired, and a keyword is enclosed by a loop brace that is
before it if the partner of that brace, should it have one, is after it. A brace is open at a place
exactly if its partner is not before that place (`exists_openAfter_iff`), so the check finds the
first keyword that no loop brace encloses.
-/

namespace Lipi.Text

/-- A break or continue keyword stands between `before` and `after`. -/
def ControlBetween (text : Text) (keyword : Keyword) (before after : Text) : Prop :=
  keyword.isLoopControl ∧ text = before ++ keyword.spelling ++ after

/-- A loop brace of the text is before the word that follows `before`, and its partner is after the
word or there is none. -/
def Enclosed (text before word : Text) : Prop :=
  ∃ head, LoopBrace text head ∧ head.length < before.length ∧
    ∀ close, (head.length, close) ∈ bracketPairs '{' '}' 0 [] text →
      before.length + word.length ≤ close

theorem controlAt_iff {text before : Text} :
    ControlAt text before ↔ ∃ keyword after, ControlBetween text keyword before after := by
  constructor
  · rintro ⟨after, rfl, starts⟩
    obtain ⟨keyword, control, rest, rfl⟩ := startsLoopControl_iff_spelling.mp starts
    exact ⟨keyword, rest, control, by simp⟩
  · rintro ⟨keyword, after, control, rfl⟩
    refine ⟨keyword.spelling ++ after, by simp, ?_⟩
    exact startsLoopControl_iff_spelling.mpr ⟨keyword, control, List.prefix_append _ _⟩

theorem LoopBrace.isPrefix {text head : Text} (isLoop : LoopBrace text head) :
    head ++ ['{'] <+: text := by
  obtain ⟨rows, line, rest, front, split, rfl, start, found⟩ := isLoop
  obtain ⟨header, body, rfl, size⟩ := exists_loopHeader_of_headerBrace? found
  have same := eq_of_isPrefix_of_byteLength start (List.prefix_append _ _) size
  obtain ⟨after, whole, -⟩ := exists_eq_of_row split
  exact ⟨body ++ after, by simp [whole, same]⟩

theorem OpenAfter.isPrefix {head place : Text} {depth : Nat} (opened : OpenAfter head depth place) :
    head ++ ['{'] <+: place := by
  obtain ⟨inside, rfl, -⟩ := opened
  exact ⟨inside, by simp⟩

theorem OpenAfter.append_balanced {head place word : Text} {depth : Nat}
    (opened : OpenAfter head depth place) (balanced : Balanced '{' '}' word) :
    OpenAfter head depth (place ++ word) := by
  obtain ⟨inside, rfl, inner⟩ := opened
  refine ⟨inside ++ word, by simp, ?_⟩
  rw [depthAfter?_append, inner, Option.bind_some, balanced.depthAfter? (by decide)]

/-- A brace is open at a place after it if its partner is not before that place. -/
theorem exists_openAfter_iff {head place : Text} (brace : head ++ ['{'] <+: place) (after : Text) :
    (∃ depth, OpenAfter head depth place) ↔
      ∀ close, (head.length, close) ∈ bracketPairs '{' '}' 0 [] (place ++ after) →
        place.length ≤ close := by
  have distinct : '{' ≠ '}' := by decide
  obtain ⟨inside, rfl⟩ := brace
  rw [List.append_assoc, List.singleton_append, List.append_assoc, List.cons_append]
  have opened : (∃ depth, OpenAfter head depth (head ++ '{' :: inside)) ↔
      ¬ ∃ close, ClosedAt '{' '}' (head.length + 1) 0 inside close := by
    rw [exists_closedAt_iff distinct, ← ne_eq, Option.ne_none_iff_exists']
    refine exists_congr fun depth => ?_
    simp [OpenAfter]
  have size : (head ++ '{' :: inside).length = head.length + 1 + inside.length := by
    simp only [List.length_append, List.length_cons]
    omega
  rw [opened, size]
  simp only [mem_bracketPairs_append_iff distinct]
  constructor
  · intro notClosed close closed
    refine Nat.le_of_not_lt fun short => notClosed ⟨close, ?_⟩
    exact (closedAt_append_iff inside after).mp ⟨closed, short⟩
  · rintro later ⟨close, closed⟩
    obtain ⟨whole, short⟩ := (closedAt_append_iff inside after).mpr closed
    exact Nat.not_lt_of_le (later close whole) short

/-- To have a loop open before a keyword is to be enclosed by it, since the keyword has no brace in
it that could be the partner. -/
theorem inLoop_iff_enclosed {text before after : Text} {keyword : Keyword}
    (control : ControlBetween text keyword before after) :
    InLoop text before ↔ Enclosed text before keyword.spelling := by
  obtain ⟨-, whole⟩ := control
  constructor
  · rintro ⟨head, depth, isLoop, opened⟩
    have past := opened.append_balanced keyword.balanced_spelling
    have first : (head ++ ['{']).length ≤ before.length := opened.isPrefix.length_le
    rw [List.length_append, List.length_singleton] at first
    refine ⟨head, isLoop, first, ?_⟩
    rw [whole, ← List.length_append]
    exact (exists_openAfter_iff past.isPrefix after).mp ⟨depth, past⟩
  · rintro ⟨head, isLoop, first, later⟩
    have start : before <+: text := ⟨keyword.spelling ++ after, by simp [whole]⟩
    have short : (head ++ ['{']).length ≤ before.length := by
      rw [List.length_append, List.length_singleton]
      exact first
    have brace := List.prefix_of_prefix_length_le isLoop.isPrefix start short
    rw [whole, List.append_assoc] at later
    obtain ⟨depth, opened⟩ := (exists_openAfter_iff brace (keyword.spelling ++ after)).mpr
      fun close pair => Nat.le_of_add_right_le (later close pair)
    exact ⟨head, depth, isLoop, opened⟩

/-- Brace pairs decide which keywords the check accepts, in every text. It names the first keyword
that no loop brace encloses, and all break and continue tokens are among those it looks at. A check
that takes the keywords from a queue of sorted hits is the same check. -/
theorem loop_control_enclosed (text : Text) :
    (∀ tracking, walkLoopControl tracking text = checkLoopControl tracking text) ∧
    (checkLoopControl .blockStack text = .ok () ↔
      ∀ keyword before after, ControlBetween text keyword before after →
        Enclosed text before keyword.spelling) ∧
    (∀ rejection, checkLoopControl .blockStack text = .error rejection →
      ∃ keyword before after, ControlBetween text keyword before after ∧
        ¬ Enclosed text before keyword.spelling ∧
        (∀ other earlier later, ControlBetween text other earlier later →
          earlier.length < before.length → Enclosed text earlier other.spelling) ∧
        rejection = .locate .outsideLoop text (byteLength before)) ∧
    ∀ (token : Token) (keyword : Keyword) (before after : Text),
      token.StandsIn text before after → token.kind = .keyword keyword → keyword.isLoopControl →
        ControlBetween text keyword before after := by
  refine ⟨fun tracking => walkLoopControl_eq tracking text, ⟨?accepted, ?enclosed⟩, ?refused, ?token⟩
  case accepted =>
    intro passed keyword before after control
    rcases checkLoopControl_blockStack_cases text with ⟨-, inLoop⟩ | ⟨place, -, refused⟩
    · exact (inLoop_iff_enclosed control).mp (inLoop before (controlAt_iff.mpr ⟨_, _, control⟩))
    · rw [passed] at refused
      cases refused
  case enclosed =>
    intro enclosed
    rcases checkLoopControl_blockStack_cases text with ⟨passed, -⟩ | ⟨place, first, -⟩
    · exact passed
    · obtain ⟨keyword, after, control⟩ := controlAt_iff.mp first.control
      have around := enclosed keyword place after control
      exact absurd ((inLoop_iff_enclosed control).mpr around) first.outside
  case refused =>
    intro rejection refused
    rcases checkLoopControl_blockStack_cases text with ⟨passed, -⟩ | ⟨place, first, located⟩
    · rw [passed] at refused
      cases refused
    · rw [located] at refused
      cases refused
      obtain ⟨keyword, after, control⟩ := controlAt_iff.mp first.control
      refine ⟨keyword, place, after, control, ?_, ?_, rfl⟩
      · rw [← inLoop_iff_enclosed control]
        exact first.outside
      · intro other earlier later present short
        rw [← inLoop_iff_enclosed present]
        exact first.inLoop earlier (controlAt_iff.mpr ⟨_, _, present⟩) short
  case token =>
    intro token keyword before after stands kind control
    refine ⟨control, ?_⟩
    rw [← Token.text_of_keyword stands.mem kind]
    exact stands.split

end Lipi.Text
