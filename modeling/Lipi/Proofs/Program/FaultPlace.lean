import Lipi.Program.Branch
import Lipi.Program.Loop
import Lipi.Program.Markers
import Lipi.Program.Statement
import Lipi.Proofs.Position
import Lipi.Proofs.Program.Brace

/-!
# Where faults stand

Markers, branches, braces and loop control are checked in four ways, each with its own reckoning
of offsets. All four refuse a text at the offset of a token that the fault is about
(`Rejection.Located`), so the position of a rejection leads back to that token
(`Rejection.Located.pointsAt`).
-/

namespace Lipi

/-- The tokens that a fault can stand at. -/
def Fault.tokens : Fault → List Text
  | endMissing | markersReversed => [startMarker]
  | startMissing => [endMarker]
  | conditionalShape => [Keyword.conditional.spelling]
  | alternateCondition | alternateShape => [Keyword.alternate.spelling]
  | unmatchedClosing => [['}']]
  | unmatchedOpening => [['{']]
  | outsideLoop => [Keyword.breakLoop.spelling, Keyword.continueLoop.spelling]

theorem Fault.token_ne_nil {fault : Fault} {token : Text} (member : token ∈ fault.tokens) :
    token ≠ [] := by
  revert token
  cases fault <;> decide

theorem Fault.newline_not_mem_token {fault : Fault} {token : Text} (member : token ∈ fault.tokens) :
    '\n' ∉ token := by
  revert token
  cases fault <;> decide

theorem Fault.terminator_not_mem_token {fault : Fault} {token : Text}
    (member : token ∈ fault.tokens) : Text.terminator ∉ token := by
  revert token
  cases fault <;> decide

/-- A token of the fault stands at the offset. -/
def Fault.StandsAt (fault : Fault) (text : Text) (offset : Nat) : Prop :=
  ∃ token ∈ fault.tokens, text.OccursAt token offset

theorem Fault.StandsAt.within {fault : Fault} {text : Text} {offset : Nat}
    (stands : fault.StandsAt text offset) (before after : Text) :
    fault.StandsAt (before ++ text ++ after) (Text.byteLength before + offset) := by
  obtain ⟨token, member, occurs⟩ := stands
  exact ⟨token, member, occurs.within before after⟩

/-- The rejection gives the position of a token that its fault is about. -/
def Rejection.Located (rejection : Rejection) (text : Text) : Prop :=
  ∃ offset, rejection.position = Position.ofOffset text offset ∧
    rejection.fault.StandsAt text offset

theorem Rejection.located_locate {fault : Fault} {text : Text} {offset : Nat}
    (stands : fault.StandsAt text offset) : (Rejection.locate fault text offset).Located text :=
  ⟨offset, rfl, stands⟩

theorem Rejection.Located.pointsAt {rejection : Rejection} {text : Text}
    (located : rejection.Located text) :
    rejection.position.ShowsLine text ∧
      ∃ token ∈ rejection.fault.tokens, rejection.position.PointsAt text token := by
  obtain ⟨offset, same, token, member, occurs⟩ := located
  obtain ⟨points, shows⟩ :=
    Position.pointsAt_ofOffset occurs (Fault.newline_not_mem_token member)
  rw [same]
  exact ⟨shows, token, member, points⟩

/-- A check ends with a rejection of this kind, and its diagnostic gives the message at the offset of
the text. -/
def RefusedAt {α : Type} (result : Except Rejection α) (kind : FaultKind) (message : String)
    (text : Text) (offset : Nat) : Prop :=
  ∃ rejection, result = .error rejection ∧ rejection.kind = kind ∧
    rejection.diagnostic = .locate message text offset

theorem refusedAt_of_locate {α : Type} {result : Except Rejection α} {fault : Fault} {text : Text}
    {offset : Nat} (refused : result = .error (.locate fault text offset)) :
    RefusedAt result fault.kind fault.message text offset :=
  ⟨_, refused, rfl, rfl⟩

namespace Text

/-! ### Markers -/

theorem extractProgram_error {source : Text} {rejection : Rejection}
    (refused : extractProgram source = .error rejection) :
    rejection.kind = .markers ∧ rejection.Located source := by
  have stands : ∀ {fault : Fault} {marker before after : Text}, marker ∈ fault.tokens →
      cut? marker source = some (before, after) → fault.StandsAt source (byteLength before) :=
    fun member found => ⟨_, member, occursAt_of_cut? found⟩
  unfold extractProgram at refused
  split at refused
  · cases refused
  · rename_i found _
    cases refused
    exact ⟨rfl, Rejection.located_locate (stands (by simp [Fault.tokens]) found)⟩
  · rename_i _ found
    cases refused
    exact ⟨rfl, Rejection.located_locate (stands (by simp [Fault.tokens]) found)⟩
  · rename_i found _
    split at refused
    · cases refused
    · cases refused
      exact ⟨rfl, Rejection.located_locate (stands (by simp [Fault.tokens]) found)⟩

/-! ### Branches -/

theorem conditionalFault?_standsAt {line : Text} {fault : Fault} {offset : Nat}
    (found : conditionalFault? line = some (fault, offset)) :
    fault.kind = .branches ∧ fault.StandsAt line offset := by
  unfold conditionalFault? at found
  split at found
  · cases found
  · rename_i cut
    split at found
    · cases found
    · cases found
      exact ⟨rfl, _, by simp [Fault.tokens], occursAt_of_cut? cut⟩

theorem alternateFault?_standsAt {line : Text} {fault : Fault} {offset : Nat}
    (found : alternateFault? line = some (fault, offset)) :
    fault.kind = .branches ∧ fault.StandsAt line offset := by
  unfold alternateFault? at found
  split at found
  · cases found
  · rename_i cut
    split at found
    · cases found
      exact ⟨rfl, _, by simp [Fault.tokens], occursAt_of_cut? cut⟩
    · split at found
      · cases found
      · cases found
        exact ⟨rfl, _, by simp [Fault.tokens], occursAt_of_cut? cut⟩

theorem branchFault?_standsAt {line : Text} {fault : Fault} {offset : Nat}
    (found : branchFault? line = some (fault, offset)) :
    fault.kind = .branches ∧ fault.StandsAt line offset := by
  rw [branchFault?, Option.or_eq_some_iff] at found
  rcases found with found | ⟨-, found⟩
  · exact conditionalFault?_standsAt found
  · exact alternateFault?_standsAt found

/-- A line that is none of the lines before it starts after their bytes. -/
theorem lineStart?_append_cons {line : Text} {rows : List Text} (fresh : line ∉ rows)
    (rest : List Text) :
    lineStart? line (rows ++ line :: rest) = some (byteLength (endLines rows)) := by
  induction rows with
  | nil => simp [lineStart?]
  | cons first rows ih =>
    obtain ⟨different, later⟩ := List.ne_and_not_mem_of_not_mem_cons fresh
    rw [List.cons_append, lineStart?, if_neg (Ne.symm different), ih later, Option.map_some,
      byteLength_endLines_cons]

/-- A text is refused for the fault of its first line that has one. -/
theorem exists_row_of_checkBranches {text : Text} {rejection : Rejection}
    (refused : checkBranches text = .error rejection) :
    ∃ rows line rest fault within, lines text = rows ++ line :: rest ∧
      (∀ row ∈ rows, branchFault? row = none) ∧ branchFault? line = some (fault, within) ∧
      rejection = .locate fault text (byteLength (endLines rows) + within) := by
  unfold checkBranches at refused
  dsimp only at refused
  split at refused
  · cases refused
  · rename_i line fault within found
    cases refused
    obtain ⟨rows, _, rest, split, faulty, clean⟩ := List.findSome?_eq_some_iff.mp found
    obtain ⟨⟨_, _⟩, illShaped, same⟩ := Option.map_eq_some_iff.mp faulty
    cases same
    have earlier : ∀ row ∈ rows, branchFault? row = none :=
      fun row member => Option.map_eq_none_iff.mp (clean row member)
    -- a line with a fault cannot be one of the lines without
    have fresh : line ∉ rows := by
      intro member
      rw [earlier line member] at illShaped
      cases illShaped
    refine ⟨rows, line, rest, fault, within, split, earlier, illShaped, ?_⟩
    rw [split, lineStart?_append_cons fresh, Option.getD_some]

theorem checkBranches_error {text : Text} {rejection : Rejection}
    (refused : checkBranches text = .error rejection) :
    rejection.kind = .branches ∧ rejection.Located text := by
  obtain ⟨rows, line, rest, fault, within, split, -, illShaped, rfl⟩ :=
    exists_row_of_checkBranches refused
  obtain ⟨after, whole, -⟩ := exists_eq_of_row split
  obtain ⟨kind, stands⟩ := branchFault?_standsAt illShaped
  refine ⟨kind, Rejection.located_locate ?_⟩
  have shifted := stands.within (endLines rows) after
  rwa [← whole] at shifted

/-! ### Braces -/

theorem checkBraces_error {text : Text} {rejection : Rejection}
    (refused : checkBraces text = .error rejection) :
    rejection.kind = .braces ∧ rejection.Located text := by
  obtain ⟨fault, before, unmatched, rfl⟩ := checkBraces_eq_error_iff.mp refused
  cases unmatched with
  | closing after _ =>
    exact ⟨rfl, Rejection.located_locate
      ⟨['}'], by simp [Fault.tokens], before, after, by simp, rfl⟩⟩
  | @opening _ after _ _ _ =>
    exact ⟨rfl, Rejection.located_locate
      ⟨['{'], by simp [Fault.tokens], before, after, by simp, rfl⟩⟩

/-! ### Loop control -/

theorem startsLoopControl_iff_spelling {text : Text} :
    startsLoopControl text ↔
      ∃ keyword : Keyword, keyword.isLoopControl ∧ keyword.spelling <+: text := by
  simp [startsLoopControl, after?_isSome_iff, Keyword.mem_all]

theorem mem_tokens_outsideLoop_iff {token : Text} :
    token ∈ Fault.outsideLoop.tokens ↔
      ∃ keyword : Keyword, keyword.isLoopControl ∧ keyword.spelling = token := by
  constructor
  · intro member
    simp only [Fault.tokens, List.mem_cons, List.not_mem_nil, or_false] at member
    rcases member with rfl | rfl
    · exact ⟨.breakLoop, rfl, rfl⟩
    · exact ⟨.continueLoop, rfl, rfl⟩
  · rintro ⟨keyword, control, rfl⟩
    revert control
    cases keyword <;> decide

theorem startsLoopControl_iff {text : Text} :
    startsLoopControl text ↔ ∃ token ∈ Fault.outsideLoop.tokens, token <+: text := by
  rw [startsLoopControl_iff_spelling]
  constructor
  · rintro ⟨keyword, control, start⟩
    exact ⟨_, mem_tokens_outsideLoop_iff.mpr ⟨keyword, control, rfl⟩, start⟩
  · rintro ⟨token, member, start⟩
    obtain ⟨keyword, control, rfl⟩ := mem_tokens_outsideLoop_iff.mp member
    exact ⟨keyword, control, start⟩

theorem startsLoopControl_append {front : Text} (starts : startsLoopControl front) (back : Text) :
    startsLoopControl (front ++ back) := by
  obtain ⟨token, member, start⟩ := startsLoopControl_iff.mp starts
  exact startsLoopControl_iff.mpr ⟨token, member, start.trans (List.prefix_append _ _)⟩

/-- A keyword does not go on beyond a character that is in no keyword. -/
theorem startsLoopControl_of_border {front back : Text}
    (border : ∀ c ∈ back.head?, ∀ token ∈ Fault.outsideLoop.tokens, c ∉ token)
    (starts : startsLoopControl (front ++ back)) : startsLoopControl front := by
  obtain ⟨token, member, rest, same⟩ := startsLoopControl_iff.mp starts
  refine startsLoopControl_iff.mpr ⟨token, member, ?_⟩
  rcases List.append_eq_append_iff.mp same with ⟨extra, inside, -⟩ | ⟨extra, long, outside⟩
  · exact ⟨extra, inside.symm⟩
  · cases extra with
    | nil => exact ⟨[], by simpa using long⟩
    | cons c extra =>
      have inToken : c ∈ token := by simp [long]
      exact absurd inToken (border c (by simp [outside]) token member)

theorem startsLoopControl_append_brace_iff (front body : Text) :
    startsLoopControl (front ++ '{' :: body) ↔ startsLoopControl front := by
  constructor
  · have noBrace : ∀ token ∈ Fault.outsideLoop.tokens, '{' ∉ token := by decide
    apply startsLoopControl_of_border
    intro c first
    cases first
    exact noBrace
  · exact fun starts => startsLoopControl_append starts _

theorem not_startsLoopControl_brace (text : Text) : ¬ startsLoopControl ('{' :: text) := by
  intro starts
  have nothing : startsLoopControl [] := (startsLoopControl_append_brace_iff [] text).mp starts
  cases nothing

theorem standsAt_of_startsLoopControl {text : Text} (starts : startsLoopControl text) :
    Fault.StandsAt .outsideLoop text 0 := by
  obtain ⟨token, member, after, same⟩ := startsLoopControl_iff.mp starts
  exact ⟨token, member, [], after, same.symm, rfl⟩

theorem standsAt_cons {text : Text} {fault : Fault} {offset : Nat} (c : Char)
    (stands : fault.StandsAt text offset) : fault.StandsAt (c :: text) (c.utf8Size + offset) := by
  simpa using stands.within [c] []

theorem firstLoopControl?_standsAt {line : Text} {offset : Nat}
    (found : firstLoopControl? line = some offset) : Fault.StandsAt .outsideLoop line offset := by
  induction line generalizing offset with
  | nil => cases found
  | cons c line ih =>
    rw [firstLoopControl?] at found
    split at found
    · rename_i starts
      cases found
      exact standsAt_of_startsLoopControl starts
    · obtain ⟨within, later, rfl⟩ := Option.map_eq_some_iff.mp found
      exact standsAt_cons c (ih later)

theorem scanBlocks_standsAt {header : Option Nat} {start offset : Nat} {blocks : List Block}
    {line : Text} (failed : scanBlocks header start blocks line = .error offset) :
    ∃ within, offset = start + within ∧ Fault.StandsAt .outsideLoop line within := by
  induction line generalizing start blocks with
  | nil => cases failed
  | cons c line ih =>
    rw [scanBlocks] at failed
    split at failed
    · rename_i outside
      cases failed
      exact ⟨0, rfl, standsAt_of_startsLoopControl outside.1⟩
    · obtain ⟨within, rfl, stands⟩ := ih failed
      exact ⟨c.utf8Size + within, Nat.add_assoc .., standsAt_cons c stands⟩

theorem trackBlocks_standsAt (blocks : List Block) (line : Text) (offset : Nat)
    (failed : trackBlocks blocks line = .error offset) : Fault.StandsAt .outsideLoop line offset := by
  obtain ⟨within, rfl, stands⟩ := scanBlocks_standsAt failed
  rwa [Nat.zero_add]

theorem trackDepth_standsAt (depth : Nat) (line : Text) (offset : Nat)
    (failed : trackDepth depth line = .error offset) : Fault.StandsAt .outsideLoop line offset := by
  unfold trackDepth at failed
  dsimp only at failed
  split at failed
  · rename_i first found
    split at failed
    · split at failed
      · cases failed
        exact firstLoopControl?_standsAt found
      · cases failed
    · split at failed
      · cases failed
        exact firstLoopControl?_standsAt found
      · cases failed
  · cases failed

/-- A failure is on one of the lines, and no later line has a part in it. -/
theorem exists_row_of_firstFailure? {State : Type} {track : State → Text → Except Nat State}
    {state : State} {pieces : List Text} {offset : Nat}
    (failed : firstFailure? track state pieces = some offset) :
    ∃ rows line rest reached within, pieces = rows ++ line :: rest ∧
      track reached line = .error within ∧ offset = byteLength (endLines rows) + within ∧
      firstFailure? track state (rows ++ [line]) = some offset := by
  induction pieces generalizing state offset with
  | nil => cases failed
  | cons line pieces ih =>
    rw [firstFailure?] at failed
    split at failed
    · rename_i here
      cases failed
      refine ⟨[], line, pieces, state, offset, rfl, here, by simp, ?_⟩
      simp [firstFailure?, here]
    · rename_i next passed
      obtain ⟨later, found, rfl⟩ := Option.map_eq_some_iff.mp failed
      obtain ⟨rows, last, rest, reached, within, rfl, here, rfl, alone⟩ := ih found
      refine ⟨line :: rows, last, rest, reached, within, rfl, here, ?_, ?_⟩
      · rw [byteLength_endLines_cons]
        omega
      · simp only [List.cons_append, firstFailure?, passed, alone, Option.map_some]

/-- If every line fails at a token, so do lines that are gone through one by one. -/
theorem firstFailure?_standsAt {State : Type} {track : State → Text → Except Nat State} {fault : Fault}
    (atToken : ∀ state line offset, track state line = .error offset → fault.StandsAt line offset)
    {state : State} {pieces : List Text} {offset : Nat}
    (failed : firstFailure? track state pieces = some offset) :
    fault.StandsAt (joinLines pieces) offset := by
  obtain ⟨rows, line, rest, reached, within, rfl, here, rfl, -⟩ := exists_row_of_firstFailure? failed
  obtain ⟨after, whole, -⟩ := joinLines_append_cons rows line rest
  rw [whole]
  exact (atToken reached line within here).within (endLines rows) after

theorem checkLoopControl_error {tracking : LoopTracking} {text : Text} {rejection : Rejection}
    (refused : checkLoopControl tracking text = .error rejection) :
    rejection.kind = .loopControl ∧ rejection.Located text := by
  unfold checkLoopControl at refused
  split at refused
  · cases refused
  · rename_i offset failed
    cases refused
    refine ⟨rfl, Rejection.located_locate ?_⟩
    rw [← joinLines_lines text]
    cases tracking with
    | blockStack => exact firstFailure?_standsAt trackBlocks_standsAt failed
    | counter => exact firstFailure?_standsAt trackDepth_standsAt failed

end Text

end Lipi
