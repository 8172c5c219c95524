import Lipi.Proofs.Program.FaultPlace
import Lipi.Proofs.Text.Escapes
import Lipi.Proofs.Text.Space

/-!
# The shape of branches

The check of branches looks for keywords on each line and reads on after every one of them. What it
asks of a line is a way to write the line as parts put together: a keyword, a guarded condition in
parentheses and a brace, with white space in between. The check accepts a text whose lines are all
well shaped, and otherwise tells what is wrong with the first one that is not
(`branches_refused_by_first_line`).

The check finds the line that it refuses a second time, by its text, and would take the start of the
text if it did not find it. Lines with the same text have the same shape, so no line before the
refused one can be taken for it (`branch_refused_on_own_line`).
-/

namespace Lipi.Text

/-! ### Well-shaped lines -/

/-- A conditional keyword of the line has a condition in parentheses and an opening brace after
it. -/
def OpensBranch (line : Text) : Prop :=
  ∃ before gap condition space after,
    line = before ++ Keyword.conditional.spelling ++
      (gap ++ '(' :: condition ++ ')' :: space ++ '{' :: after) ∧
    (∀ c ∈ gap, isSpace c) ∧ (∀ c ∈ space, isSpace c) ∧ Guarded ['(', ')'] condition

def ConditionalShaped (line : Text) : Prop :=
  Keyword.conditional.spelling <:+: line → OpensBranch line

/-- An alternate keyword of the line has an opening parenthesis after it. -/
def AlternateCondition (line : Text) : Prop :=
  ∃ before gap after, line = before ++ Keyword.alternate.spelling ++ (gap ++ '(' :: after) ∧
    ∀ c ∈ gap, isSpace c

def AlternateShaped (line : Text) : Prop :=
  Keyword.alternate.spelling <:+: line → ¬ AlternateCondition line ∧ '{' ∈ line

def WellShaped (line : Text) : Prop :=
  ConditionalShaped line ∧ AlternateShaped line

/-- What is wrong with the line: the keyword it is about and what is said of it. -/
inductive Misshapen (line : Text) : Keyword → String → Prop
  | conditional : ¬ ConditionalShaped line →
      Misshapen line .conditional "invalid conditional block shape"
  | condition : ConditionalShaped line → AlternateCondition line →
      Misshapen line .alternate "alternate branch cannot have a condition"
  | alternate : ConditionalShaped line → ¬ AlternateCondition line → ¬ AlternateShaped line →
      Misshapen line .alternate "invalid alternate block shape"

theorem AlternateCondition.isInfix {line : Text} (given : AlternateCondition line) :
    Keyword.alternate.spelling <:+: line := by
  obtain ⟨before, gap, after, rfl, -⟩ := given
  exact ⟨before, _, rfl⟩

theorem Misshapen.not_wellShaped {line : Text} {keyword : Keyword} {message : String}
    (misshapen : Misshapen line keyword message) : ¬ WellShaped line := by
  rintro ⟨conditional, alternate⟩
  cases misshapen with
  | conditional illShaped => exact illShaped conditional
  | condition _ given => exact (alternate given.isInfix).1 given
  | alternate _ _ illShaped => exact illShaped alternate

/-! ### What follows a keyword -/

theorem mem_followers_iff {needle text after : Text} :
    after ∈ followers needle text ↔ ∃ before, text = before ++ needle ++ after := by
  induction text with
  | nil =>
    rw [followers, Option.mem_toList, after?_eq_some_iff]
    constructor
    · intro same
      exact ⟨[], same⟩
    · rintro ⟨before, same⟩
      simp_all
  | cons c text ih =>
    rw [followers, List.mem_append, Option.mem_toList, after?_eq_some_iff, ih]
    constructor
    · rintro (same | ⟨before, rfl⟩)
      · exact ⟨[], same⟩
      · exact ⟨c :: before, rfl⟩
    · rintro ⟨before, same⟩
      cases before with
      | nil => exact .inl same
      | cons d before =>
        obtain ⟨rfl, tail⟩ := List.cons.inj same
        exact .inr ⟨before, tail⟩

theorem any_followers_iff {needle text : Text} {p : Text → Bool} :
    (followers needle text).any p ↔ ∃ before after, text = before ++ needle ++ after ∧ p after := by
  rw [List.any_eq_true]
  constructor
  · rintro ⟨after, member, holds⟩
    obtain ⟨before, same⟩ := mem_followers_iff.mp member
    exact ⟨before, after, same, holds⟩
  · rintro ⟨before, after, same, holds⟩
    exact ⟨after, mem_followers_iff.mpr ⟨before, same⟩, holds⟩

theorem opensWith_iff {c : Char} {text : Text} (visible : isSpace c = false) :
    opensWith c text ↔ ∃ gap rest, text = gap ++ c :: rest ∧ ∀ d ∈ gap, isSpace d := by
  rw [opensWith, decide_eq_true_eq, List.head?_eq_some_iff]
  simp only [trimStart_eq_cons_iff visible]
  exact exists_comm

theorem afterCondition?_eq_some_iff {text rest : Text} :
    afterCondition? text = some rest ↔ ClosedBy ['(', ')'] ')' text rest := by
  fun_induction afterCondition? text with
  | case1 => simp [not_closedBy_nil]
  | case2 text => simp [closedBy_cons_iff]
  | case3 text _ => simp [closedBy_cons_iff]
  | case4 _ _ => simp [closedBy_backslash_iff]
  | case5 escaped text _ _ ih =>
    rw [ih, closedBy_backslash_iff (by decide)]
    constructor
    · intro closed
      exact ⟨escaped, text, rfl, closed⟩
    · rintro ⟨_, _, same, closed⟩
      cases same
      exact closed
  | case6 c text notClose notOpen notEscape ih =>
    simp [closedBy_cons_iff notEscape, notClose, notOpen, ih]

theorem opensConditionalBlock_iff {text : Text} :
    opensConditionalBlock text ↔ ∃ gap condition space after,
      text = gap ++ '(' :: condition ++ ')' :: space ++ '{' :: after ∧
      (∀ c ∈ gap, isSpace c) ∧ (∀ c ∈ space, isSpace c) ∧ Guarded ['(', ')'] condition := by
  have paren : isSpace '(' = false := by decide
  have brace : isSpace '{' = false := by decide
  constructor
  · intro opens
    unfold opensConditionalBlock at opens
    split at opens
    · rename_i c inside shape
      rw [Bool.and_eq_true, decide_eq_true_eq, Option.any_eq_true] at opens
      obtain ⟨rfl, rest, found, block⟩ := opens
      obtain ⟨gap, rfl, gapSpaces⟩ := (trimStart_eq_cons_iff paren).mp shape
      obtain ⟨condition, rfl, guarded⟩ := afterCondition?_eq_some_iff.mp found
      obtain ⟨space, after, rfl, spaces⟩ := (opensWith_iff brace).mp block
      exact ⟨gap, condition, space, after, by simp, gapSpaces, spaces, guarded⟩
    · cases opens
  · rintro ⟨gap, condition, space, after, rfl, gapSpaces, spaces, guarded⟩
    have shape : trimStart (gap ++ '(' :: condition ++ ')' :: space ++ '{' :: after) =
        '(' :: (condition ++ ')' :: (space ++ '{' :: after)) :=
      (trimStart_eq_cons_iff paren).mpr ⟨gap, by simp, gapSpaces⟩
    have found : afterCondition? (condition ++ ')' :: (space ++ '{' :: after)) =
        some (space ++ '{' :: after) :=
      afterCondition?_eq_some_iff.mpr ⟨condition, rfl, guarded⟩
    have block : opensWith '{' (space ++ '{' :: after) :=
      (opensWith_iff brace).mpr ⟨space, after, rfl, spaces⟩
    unfold opensConditionalBlock
    rw [shape]
    simp [found, block]

/-! ### The fault of a line -/

theorem opensBranch_iff {line : Text} :
    (followers Keyword.conditional.spelling line).any opensConditionalBlock ↔ OpensBranch line := by
  rw [any_followers_iff]
  simp only [opensConditionalBlock_iff]
  constructor
  · rintro ⟨before, _, rfl, gap, condition, space, after, rfl, shape⟩
    exact ⟨before, gap, condition, space, after, rfl, shape⟩
  · rintro ⟨before, gap, condition, space, after, rfl, shape⟩
    exact ⟨before, _, rfl, gap, condition, space, after, rfl, shape⟩

theorem alternateCondition_iff {line : Text} :
    (followers Keyword.alternate.spelling line).any (opensWith '(') ↔ AlternateCondition line := by
  rw [any_followers_iff]
  simp only [opensWith_iff (show isSpace '(' = false by decide)]
  constructor
  · rintro ⟨before, _, rfl, gap, after, rfl, spaces⟩
    exact ⟨before, gap, after, rfl, spaces⟩
  · rintro ⟨before, gap, after, rfl, spaces⟩
    exact ⟨before, _, rfl, gap, after, rfl, spaces⟩

theorem conditionalFault?_cases (line : Text) :
    (conditionalFault? line = none ∧ ConditionalShaped line) ∨
      ∃ within, conditionalFault? line = some (.conditionalShape, within) ∧
        ¬ ConditionalShaped line ∧ FirstAt line Keyword.conditional.spelling within := by
  unfold conditionalFault?
  split
  · rename_i absent
    exact .inl ⟨rfl, fun present => absurd present (cut?_eq_none_iff.mp absent)⟩
  · rename_i before after found
    split
    · rename_i opens
      exact .inl ⟨rfl, fun _ => opensBranch_iff.mp opens⟩
    · rename_i closed
      refine .inr ⟨_, rfl, ?_, firstAt_of_cut? found⟩
      intro shaped
      exact closed (opensBranch_iff.mpr (shaped (occursAt_of_cut? found).isInfix))

theorem alternateFault?_cases (line : Text) :
    (alternateFault? line = none ∧ AlternateShaped line) ∨
      ∃ fault within, alternateFault? line = some (fault, within) ∧
        FirstAt line Keyword.alternate.spelling within ∧
        ((fault = .alternateCondition ∧ AlternateCondition line) ∨
          (fault = .alternateShape ∧ ¬ AlternateCondition line ∧ ¬ AlternateShaped line)) := by
  unfold alternateFault?
  split
  · rename_i absent
    exact .inl ⟨rfl, fun present => absurd present (cut?_eq_none_iff.mp absent)⟩
  · rename_i before after found
    have first := firstAt_of_cut? found
    split
    · rename_i given
      exact .inr ⟨_, _, rfl, first, .inl ⟨rfl, alternateCondition_iff.mp given⟩⟩
    · rename_i bare
      rw [alternateCondition_iff] at bare
      split
      · rename_i block
        exact .inl ⟨rfl, fun _ => ⟨bare, block⟩⟩
      · rename_i noBlock
        refine .inr ⟨_, _, rfl, first, .inr ⟨rfl, bare, ?_⟩⟩
        intro shaped
        exact noBlock (shaped first.1.isInfix).2

theorem branchFault?_cases (line : Text) :
    (branchFault? line = none ∧ WellShaped line) ∨
      ∃ fault within keyword, branchFault? line = some (fault, within) ∧
        Misshapen line keyword fault.message ∧ FirstAt line keyword.spelling within := by
  unfold branchFault?
  rcases conditionalFault?_cases line with ⟨passed, shaped⟩ | ⟨within, failed, illShaped, first⟩
  · rw [passed, Option.none_or]
    rcases alternateFault?_cases line with
      ⟨passed', shaped'⟩ | ⟨fault, within, failed, first, cause⟩
    · exact .inl ⟨passed', shaped, shaped'⟩
    · refine .inr ⟨fault, within, .alternate, failed, ?_, first⟩
      rcases cause with ⟨rfl, given⟩ | ⟨rfl, bare, illShaped⟩
      · exact .condition shaped given
      · exact .alternate shaped bare illShaped
  · rw [failed, Option.some_or]
    exact .inr ⟨.conditionalShape, within, .conditional, rfl, .conditional illShaped, first⟩

theorem branchFault?_eq_none_iff {line : Text} : branchFault? line = none ↔ WellShaped line := by
  rcases branchFault?_cases line with
    ⟨passed, shaped⟩ | ⟨fault, within, keyword, failed, misshapen, -⟩
  · exact iff_of_true passed shaped
  · exact iff_of_false (by simp [failed]) misshapen.not_wellShaped

theorem misshapen_of_branchFault? {line : Text} {fault : Fault} {within : Nat}
    (found : branchFault? line = some (fault, within)) :
    ∃ keyword, Misshapen line keyword fault.message ∧ FirstAt line keyword.spelling within := by
  rcases branchFault?_cases line with ⟨passed, -⟩ | ⟨fault', within', keyword, failed, about⟩
  · rw [passed] at found
    cases found
  · rw [failed] at found
    cases found
    exact ⟨keyword, about⟩

/-! ### The first misshapen line -/

theorem checkBranches_eq_ok_iff {text : Text} :
    checkBranches text = .ok () ↔ ∀ line ∈ lines text, WellShaped line := by
  unfold checkBranches
  dsimp only
  split
  · rename_i none
    rw [List.findSome?_eq_none_iff] at none
    refine iff_of_true rfl fun line member => ?_
    exact branchFault?_eq_none_iff.mp (Option.map_eq_none_iff.mp (none line member))
  · rename_i line fault within found
    obtain ⟨candidate, member, faulty⟩ := List.exists_of_findSome?_eq_some found
    refine iff_of_false (fun passed => by cases passed) fun shaped => ?_
    rw [branchFault?_eq_none_iff.mpr (shaped candidate member)] at faulty
    cases faulty

/-- The check accepts a text if all its lines are well shaped. It refuses a text for what is wrong
with the first line that is not, and points at the first keyword on it that this is about. -/
theorem branches_refused_by_first_line (text : Text) :
    (checkBranches text = .ok () ↔ ∀ line ∈ lines text, WellShaped line) ∧
    ∀ rejection, checkBranches text = .error rejection →
      rejection.kind = .branches ∧
      ∃ rows line rest keyword within, lines text = rows ++ line :: rest ∧
        (∀ row ∈ rows, WellShaped row) ∧ ¬ WellShaped line ∧
        Misshapen line keyword rejection.diagnostic.message ∧
        FirstAt line keyword.spelling within ∧
        rejection.position = Position.ofOffset text (byteLength (endLines rows) + within) := by
  refine ⟨checkBranches_eq_ok_iff, ?_⟩
  intro rejection refused
  refine ⟨(checkBranches_error refused).1, ?_⟩
  obtain ⟨rows, line, rest, fault, within, split, clean, faulty, rfl⟩ :=
    exists_row_of_checkBranches refused
  obtain ⟨keyword, misshapen, first⟩ := misshapen_of_branchFault? faulty
  have earlier : ∀ row ∈ rows, WellShaped row :=
    fun row member => branchFault?_eq_none_iff.mp (clean row member)
  exact ⟨rows, line, rest, keyword, within, split, earlier, misshapen.not_wellShaped, misshapen,
    first, rfl⟩

/-- A conditional with an escaped parenthesis in its condition, and an alternate with a
condition. -/
def conditionTwice : Text :=
  "यदि (a \\) b) \x7b\n\x7d अन्यथा (c) \x7b".toList

theorem conditionTwice_refused :
    ∃ rejection, checkBranches conditionTwice = .error rejection ∧
      ∃ rows line rest keyword within, lines conditionTwice = rows ++ line :: rest ∧
        (∀ row ∈ rows, WellShaped row) ∧ ¬ WellShaped line ∧
        Misshapen line keyword "alternate branch cannot have a condition" ∧
        FirstAt line keyword.spelling within := by
  have refused : checkBranches conditionTwice =
      .error ⟨.alternateCondition, 2, 3, "\x7d अन्यथा (c) \x7b".toList⟩ := by decide +kernel
  obtain ⟨-, rows, line, rest, keyword, within, split, earlier, illShaped, misshapen, first, -⟩ :=
    (branches_refused_by_first_line conditionTwice).2 _ refused
  exact ⟨_, refused, rows, line, rest, keyword, within, split, earlier, illShaped, misshapen, first⟩

/-- The position of a refusal is on the first line that is not well shaped, at the first keyword on
it that the fault is about. That line is the one which the lookup by its text finds. -/
theorem branch_refused_on_own_line {text : Text} {rejection : Rejection}
    (refused : checkBranches text = .error rejection) :
    ∃ rows line rest keyword before after, lines text = rows ++ line :: rest ∧
      (∀ row ∈ rows, WellShaped row ∧ branchFault? row = none) ∧
      ¬ WellShaped line ∧ branchFault? line = some (rejection.fault, byteLength before) ∧
      Misshapen line keyword rejection.diagnostic.message ∧
      line = before ++ keyword.spelling ++ after ∧
      (∀ earlier later, line = earlier ++ keyword.spelling ++ later → before <+: earlier) ∧
      lineStart? line (lines text) = some (byteLength (endLines rows)) ∧
      rejection.position =
        { line := rows.length + 1, column := before.length + 1, lineText := line } := by
  obtain ⟨rows, line, rest, fault, within, split, clean, faulty, rfl⟩ :=
    exists_row_of_checkBranches refused
  obtain ⟨keyword, misshapen, first⟩ := misshapen_of_branchFault? faulty
  obtain ⟨before, after, whole, rfl, least⟩ := exists_before_of_firstAt first
  have start : before <+: line := ⟨keyword.spelling ++ after, by simp [whole]⟩
  have fresh : line ∉ rows := by
    intro member
    rw [clean line member] at faulty
    cases faulty
  refine ⟨rows, line, rest, keyword, before, after, split, ?_, misshapen.not_wellShaped, faulty,
    misshapen, whole, least, ?_, ?_⟩
  · intro row member
    exact ⟨branchFault?_eq_none_iff.mp (clean row member), clean row member⟩
  · rw [split, lineStart?_append_cons fresh]
  · exact Position.ofOffset_of_front split start

/-- The misshapen line comes twice, after a line without a branch. -/
def alternateTwice : Text :=
  let misshapen := "\x7d ".toList ++ Keyword.alternate.spelling ++ ";".toList
  joinLines ["x".toList, misshapen, [], misshapen]

theorem alternateTwice_refused_on_own_line :
    ∃ rejection, checkBranches alternateTwice = .error rejection ∧
      ∃ rows line rest, lines alternateTwice = rows ++ line :: rest ∧ ¬ WellShaped line ∧
        lineStart? line (lines alternateTwice) = some (byteLength (endLines rows)) ∧
        rejection.position.line = rows.length + 1 ∧ rejection.position.lineText = line := by
  have misshapen : ¬ WellShaped ("\x7d ".toList ++ Keyword.alternate.spelling ++ ";".toList) := by
    intro shaped
    have block := (shaped.2 ⟨_, _, rfl⟩).2
    exact absurd block (by decide)
  have member : "\x7d ".toList ++ Keyword.alternate.spelling ++ ";".toList ∈ lines alternateTwice := by
    unfold alternateTwice
    rw [lines_joinLines (by simp) (by decide)]
    simp
  cases result : checkBranches alternateTwice with
  | ok _ => exact absurd (checkBranches_eq_ok_iff.mp result _ member) misshapen
  | error rejection =>
    obtain ⟨rows, line, rest, keyword, before, after, split, -, illShaped, -, -, -, -, found, place⟩ :=
      branch_refused_on_own_line result
    exact ⟨rejection, rfl, rows, line, rest, split, illShaped, found, by rw [place], by rw [place]⟩

end Lipi.Text
