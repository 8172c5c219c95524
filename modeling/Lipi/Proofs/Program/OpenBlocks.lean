import Lipi.Proofs.Program.FaultPlace
import Lipi.Proofs.Program.LoopHeader
import Lipi.Proofs.Text.Balance

/-!
# Open blocks

The tracking of blocks keeps a stack that tells loops from other blocks and forgets where they
were opened. At every place of a text, the entries of the stack are the braces that are open
there: entry number `depth` is the brace with `depth` more open inside of it (`Tracks`). Up to a
place that the check has reached, the stack is right and all keywords are in loops (`Passed`). One
character keeps this true (`Passed.step`), so a line does unless it has the first keyword outside of
every loop (`Passed.scan`), and so do all lines (`Passed.firstFailure?`).
-/

namespace Lipi

theorem Keyword.balanced_spelling (keyword : Keyword) :
    Text.Balanced '{' '}' keyword.spelling := by
  apply Text.balanced_of_depthAfter? (by decide)
  cases keyword <;> decide

namespace Text

/-- The brace after `head` is open at the end of the text, with `depth` open braces inside of it. -/
def OpenAfter (head : Text) (depth : Nat) (text : Text) : Prop :=
  ∃ inside, text = head ++ '{' :: inside ∧ depthAfter? '{' '}' 0 inside = some depth

theorem openAfter_nil (head : Text) (depth : Nat) : ¬ OpenAfter head depth [] := by
  rintro ⟨inside, same, -⟩
  simp at same

/-- A brace that is open after one more character has just been opened, or it was open before. -/
theorem openAfter_append_singleton {head text : Text} {depth : Nat} {c : Char} :
    OpenAfter head depth (text ++ [c]) ↔
      (c = '{' ∧ head = text ∧ depth = 0) ∨
        ∃ before, OpenAfter head before text ∧ depthAfter? '{' '}' before [c] = some depth := by
  constructor
  · rintro ⟨inside, same, closed⟩
    -- The new character is the brace itself, or it is the last one inside.
    rcases List.eq_nil_or_concat inside with rfl | ⟨inner, last, rfl⟩
    · obtain ⟨rfl, brace⟩ := List.append_inj' same rfl
      cases brace
      cases closed
      exact .inl ⟨rfl, rfl, rfl⟩
    · have split : text ++ [c] = (head ++ '{' :: inner) ++ [last] := by simpa using same
      obtain ⟨rfl, single⟩ := List.append_inj' split rfl
      cases single
      rw [List.concat_eq_append, depthAfter?_append] at closed
      obtain ⟨before, innerDepth, step⟩ := Option.bind_eq_some_iff.mp closed
      exact .inr ⟨before, ⟨inner, rfl, innerDepth⟩, step⟩
  · rintro (⟨rfl, rfl, rfl⟩ | ⟨before, ⟨inner, rfl, innerDepth⟩, step⟩)
    · exact ⟨[], rfl, rfl⟩
    · exact ⟨inner ++ [c], by simp, by rw [depthAfter?_append, innerDepth]; exact step⟩

/-- The loops in the stack are the loop braces that are open after the text. -/
def Tracks (loopBrace : Text → Prop) (text : Text) (blocks : List Block) : Prop :=
  ∀ depth, blocks[depth]? = some .loop ↔ ∃ head, loopBrace head ∧ OpenAfter head depth text

theorem tracks_nil (loopBrace : Text → Prop) : Tracks loopBrace [] [] := by
  simp [Tracks, openAfter_nil]

theorem Tracks.mem_iff {loopBrace : Text → Prop} {text : Text} {blocks : List Block}
    (tracks : Tracks loopBrace text blocks) :
    .loop ∈ blocks ↔ ∃ head depth, loopBrace head ∧ OpenAfter head depth text := by
  rw [List.mem_iff_getElem?]
  constructor
  · rintro ⟨depth, entry⟩
    obtain ⟨head, isLoop, opened⟩ := (tracks depth).mp entry
    exact ⟨head, depth, isLoop, opened⟩
  · rintro ⟨head, depth, isLoop, opened⟩
    exact ⟨depth, (tracks depth).mpr ⟨head, isLoop, opened⟩⟩

theorem Tracks.step {loopBrace : Text → Prop} {text : Text} {blocks : List Block}
    (tracks : Tracks loopBrace text blocks) (header : Bool) (c : Char)
    (agrees : c = '{' → (header = true ↔ loopBrace text)) :
    Tracks loopBrace (text ++ [c]) (blocksAfter blocks header c) := by
  intro depth
  simp only [openAfter_append_singleton]
  by_cases isOpening : c = '{'
  · subst isOpening
    have pushed : blocksAfter blocks header '{' = (if header then .loop else .other) :: blocks := rfl
    rw [pushed]
    cases depth with
    | zero =>
      rw [List.getElem?_cons_zero]
      have opens := agrees rfl
      cases header <;> simp_all
    | succ depth =>
      rw [List.getElem?_cons_succ, tracks depth]
      simp
  · by_cases isClosing : c = '}'
    · subst isClosing
      have popped : blocksAfter blocks header '}' = blocks.tail := rfl
      rw [popped, List.getElem?_tail, tracks (depth + 1)]
      refine exists_congr fun head => and_congr_right fun _ => ?_
      constructor
      · exact fun opened => .inr ⟨depth + 1, opened, rfl⟩
      · rintro (⟨brace, -⟩ | ⟨before, opened, closed⟩)
        · cases brace
        · cases before with
          | zero => cases closed
          | succ before =>
            cases closed
            exact opened
    · have kept : blocksAfter blocks header c = blocks := by
        rw [blocksAfter, if_neg isOpening, if_neg isClosing]
      rw [kept, tracks depth]
      simp [isOpening, depthAfter?_other isOpening isClosing]

/-! ### Loop braces -/

/-- The brace after `head` is the one that opens a loop on its line of the text. -/
def LoopBrace (text head : Text) : Prop :=
  ∃ rows line rest front, lines text = rows ++ line :: rest ∧ head = endLines rows ++ front ∧
    front <+: line ∧ headerBrace? line = some (byteLength front)

theorem loopBrace_iff {text front line : Text} {rows rest : List Text}
    (split : lines text = rows ++ line :: rest) (start : front <+: line) :
    LoopBrace text (endLines rows ++ front) ↔ headerBrace? line = some (byteLength front) := by
  constructor
  · rintro ⟨rows', line', rest', front', split', same, start', found⟩
    have places := lines_before_place split start
    rw [same, lines_before_place split' start'] at places
    obtain ⟨rfl, fronts⟩ := List.append_inj' places rfl
    cases fronts
    rw [split', List.append_cancel_left_eq] at split
    cases split
    exact found
  · exact fun found => ⟨rows, line, rest, front, split, rfl, start, found⟩

theorem exists_loopHeader_of_loopBrace {text head : Text} (isLoop : LoopBrace text head) :
    ∃ (rows : List Text) (header : LoopHeader),
      head = endLines rows ++ header.text ∧ '\n' ∉ header.text := by
  obtain ⟨rows, line, rest, front, split, rfl, start, found⟩ := isLoop
  obtain ⟨header, body, rfl, size⟩ := exists_loopHeader_of_headerBrace? found
  have same := eq_of_isPrefix_of_byteLength start (List.prefix_append _ _) size
  have single : '\n' ∉ header.text ++ '{' :: body :=
    newline_not_mem_of_mem_lines (by rw [split]; simp)
  exact ⟨rows, header, by rw [same], fun newline => single (List.mem_append_left _ newline)⟩

/-! ### Keywords in loops -/

/-- A loop brace of the text is open after `before`. -/
def InLoop (text before : Text) : Prop :=
  ∃ head depth, LoopBrace text head ∧ OpenAfter head depth before

/-- A break or continue keyword follows `before` in the text. -/
def ControlAt (text before : Text) : Prop :=
  ∃ after, text = before ++ after ∧ startsLoopControl after

/-- The check has gone through `before`, with the given blocks open after it. -/
structure Passed (text before : Text) (blocks : List Block) : Prop where
  tracks : Tracks (LoopBrace text) before blocks
  inLoop : ∀ earlier, ControlAt text earlier → earlier.length < before.length → InLoop text earlier

/-- The keyword after `before` is the first that is in no loop. -/
structure FirstOutside (text before : Text) : Prop where
  control : ControlAt text before
  outside : ¬ InLoop text before
  inLoop : ∀ earlier, ControlAt text earlier → earlier.length < before.length → InLoop text earlier

theorem passed_nil (text : Text) : Passed text [] [] :=
  ⟨tracks_nil _, fun _ _ short => absurd short (Nat.not_lt_zero _)⟩

theorem Passed.step {text before after : Text} {blocks : List Block}
    (passed : Passed text before blocks) (split : text = before ++ after)
    (allowed : startsLoopControl after → .loop ∈ blocks) (header : Bool) (c : Char)
    (agrees : c = '{' → (header = true ↔ LoopBrace text before)) :
    Passed text (before ++ [c]) (blocksAfter blocks header c) := by
  refine ⟨passed.tracks.step header c agrees, ?_⟩
  intro earlier control short
  rw [List.length_append, List.length_singleton] at short
  by_cases further : earlier.length < before.length
  · exact passed.inLoop earlier control further
  · -- Only the place that was reached before is new.
    obtain ⟨later, whole, starts⟩ := control
    obtain ⟨rfl, rfl⟩ := List.append_inj (whole.symm.trans split) (by omega)
    exact passed.tracks.mem_iff.mp (allowed starts)

/-! ### Lines -/

/-- A keyword that starts on a line does not go beyond it. -/
theorem startsLoopControl_of_line {front back : Text} (newline : ∀ c ∈ back.head?, c = '\n')
    (starts : startsLoopControl (front ++ back)) : startsLoopControl front := by
  apply startsLoopControl_of_border _ starts
  intro c first token member
  rw [newline c first]
  exact Fault.newline_not_mem_token member

theorem not_startsLoopControl_newline {text : Text} (newline : ∀ c ∈ text.head?, c = '\n') :
    ¬ startsLoopControl text := by
  intro starts
  have none : startsLoopControl [] := startsLoopControl_of_line newline starts
  cases none

/-- How the check of a line can end, with the text `above` before the line: past the line, or at
the first keyword that is in no loop. -/
inductive Scanned (text above line : Text) : Except Nat (List Block) → Prop where
  | passed {blocks : List Block} : Passed text (above ++ line) blocks →
      Scanned text above line (.ok blocks)
  | refused {front : Text} : FirstOutside text (above ++ front) →
      Scanned text above line (.error (byteLength front))

theorem Passed.scan {text line tail : Text} {rows rest : List Text}
    (split : lines text = rows ++ line :: rest) (whole : text = endLines rows ++ line ++ tail)
    (newline : ∀ c ∈ tail.head?, c = '\n') {front back : Text} (parts : line = front ++ back)
    {blocks : List Block} (passed : Passed text (endLines rows ++ front) blocks) :
    Scanned text (endLines rows) line
      (scanBlocks (headerBrace? line) (byteLength front) blocks back) := by
  induction back generalizing front blocks with
  | nil =>
    rw [List.append_nil] at parts
    exact .passed (by rwa [parts])
  | cons c back ih =>
    have place : text = (endLines rows ++ front) ++ (c :: back ++ tail) := by simp [whole, parts]
    rw [scanBlocks]
    split
    · rename_i refused
      obtain ⟨starts, outside⟩ := refused
      refine .refused ⟨⟨_, place, startsLoopControl_append starts tail⟩, ?_, passed.inLoop⟩
      exact fun inLoop => outside (passed.tracks.mem_iff.mpr inLoop)
    · rename_i notRefused
      have allowed : startsLoopControl (c :: back ++ tail) → .loop ∈ blocks := fun starts =>
        Decidable.not_not.mp fun outside =>
          notRefused ⟨startsLoopControl_of_line newline starts, outside⟩
      have agrees : c = '{' → (decide (headerBrace? line = some (byteLength front)) = true ↔
          LoopBrace text (endLines rows ++ front)) := by
        intro _
        rw [decide_eq_true_iff, loopBrace_iff split ⟨c :: back, parts.symm⟩]
      have stepped := passed.step place allowed _ c agrees
      have size : byteLength front + c.utf8Size = byteLength (front ++ [c]) := by simp
      rw [size]
      exact ih (by simp [parts]) (by simpa using stepped)

theorem endLines_eq_joinLines {rows : List Text} (someRow : rows ≠ []) :
    endLines rows = joinLines rows ++ ['\n'] := by
  induction rows with
  | nil => exact absurd rfl someRow
  | cons row rows ih =>
    cases rows with
    | nil => simp [joinLines]
    | cons next rows =>
      rw [endLines_cons, ih (by simp)]
      change _ = (row ++ '\n' :: joinLines (next :: rows)) ++ ['\n']
      simp

theorem Passed.firstFailure? {text : Text} (rows : List Text) {pieces : List Text}
    {blocks : List Block} (split : lines text = rows ++ pieces)
    (passed : Passed text (endLines rows) blocks) :
    (firstFailure? trackBlocks blocks pieces = none →
      ∀ before, ControlAt text before → InLoop text before) ∧
    ∀ offset, firstFailure? trackBlocks blocks pieces = some offset →
      ∃ before, FirstOutside text before ∧
        byteLength before = byteLength (endLines rows) + offset := by
  induction pieces generalizing rows blocks with
  | nil =>
    refine ⟨fun _ before control => passed.inLoop before control ?_, fun _ failed => by cases failed⟩
    -- All lines together are longer than the text by one newline.
    rw [List.append_nil] at split
    rw [← split, endLines_eq_joinLines (lines_ne_nil text), joinLines_lines]
    obtain ⟨after, rfl, -⟩ := control
    simp only [List.length_append, List.length_singleton]
    omega
  | cons line pieces ih =>
    obtain ⟨tail, whole, newline⟩ := exists_eq_of_row split
    have start : Passed text (endLines rows ++ []) blocks := by rwa [List.append_nil]
    have scanned := start.scan split whole newline rfl
    have tracked : trackBlocks blocks line =
        scanBlocks (headerBrace? line) (byteLength []) blocks line := rfl
    rw [← tracked] at scanned
    rw [Text.firstFailure?]
    generalize trackBlocks blocks line = result at scanned
    cases scanned with
    | refused first =>
      constructor
      · intro passes
        cases passes
      · intro offset failed
        cases failed
        exact ⟨_, first, byteLength_append _ _⟩
    | @passed final atEnd =>
      -- No keyword and no brace stands between two lines.
      have nothing := not_startsLoopControl_newline newline
      have next := atEnd.step whole (fun starts => absurd starts nothing) false '\n' (by simp)
      have kept : blocksAfter final false '\n' = final := rfl
      have nextLine : Passed text (endLines (rows ++ [line])) final := by
        simpa [endLines, kept] using next
      obtain ⟨passes, fails⟩ := ih (rows ++ [line]) (by simpa using split) nextLine
      simp only [Option.map_eq_none_iff, Option.map_eq_some_iff]
      refine ⟨passes, ?_⟩
      rintro offset ⟨within, failed, rfl⟩
      obtain ⟨before, first, size⟩ := fails within failed
      refine ⟨before, first, ?_⟩
      simp [endLines, utf8Size_newline] at size ⊢
      omega

/-- The check passes if every keyword is in a loop, and otherwise stops at the first that is not. -/
theorem checkLoopControl_blockStack_cases (text : Text) :
    (checkLoopControl .blockStack text = .ok () ∧
        ∀ before, ControlAt text before → InLoop text before) ∨
      ∃ before, FirstOutside text before ∧
        checkLoopControl .blockStack text =
          .error (.locate .outsideLoop text (byteLength before)) := by
  obtain ⟨passes, fails⟩ := Passed.firstFailure? [] rfl (passed_nil text)
  cases found : firstFailure? trackBlocks [] (lines text) with
  | none => exact .inl ⟨by simp [checkLoopControl, outsideLoop?, found], passes found⟩
  | some offset =>
    obtain ⟨before, first, size⟩ := fails offset found
    refine .inr ⟨before, first, ?_⟩
    rw [endLines_nil, byteLength_nil, Nat.zero_add] at size
    simp [checkLoopControl, outsideLoop?, found, size]

/-- In a text that passes, every break or continue keyword comes after a loop brace that is still
open. -/
theorem exists_loopBrace_of_checkLoopControl {before after : Text}
    (passed : checkLoopControl .blockStack (before ++ after) = .ok ())
    (starts : startsLoopControl after) :
    ∃ head depth, LoopBrace (before ++ after) head ∧ OpenAfter head depth before := by
  rcases checkLoopControl_blockStack_cases (before ++ after) with ⟨-, inLoop⟩ | ⟨place, -, refused⟩
  · exact inLoop before ⟨after, rfl, starts⟩
  · rw [passed] at refused
    cases refused

end Text

end Lipi
