import Lipi.Proofs.Program.FaultPlace
import Lipi.Proofs.Program.LoopHeader

/-!
# The two trackings of loops

The counter knows less than the stack of blocks: it takes a line's header first and its closing
braces last, and lets any of these close a loop. On lines whose keywords stand between the two
(`Disciplined`), it never counts more loops than the stack holds, so it refuses whatever the stack
refuses, on the same line or earlier (`exists_failure_of_trackBlocks`). Where loops are all that is
ever opened, it counts exactly the loops of the stack (`trackBlocks_replicate`).
-/

namespace Lipi.Text

/-! ### Blocks along a line -/

/-- The open blocks after a part of a line, wherever its keywords stand. -/
def blocksThrough (header : Option Nat) (offset : Nat) (blocks : List Block) : Text → List Block
  | [] => blocks
  | c :: text =>
    blocksThrough header (offset + c.utf8Size) (blocksAfter blocks (header = some offset) c) text

theorem blocksThrough_append (header : Option Nat) (offset : Nat) (blocks : List Block)
    (front back : Text) :
    blocksThrough header offset blocks (front ++ back) =
      blocksThrough header (offset + byteLength front) (blocksThrough header offset blocks front)
        back := by
  induction front generalizing offset blocks with
  | nil => rfl
  | cons c front ih =>
    rw [List.cons_append, blocksThrough, blocksThrough, ih, byteLength_cons, Nat.add_assoc]

theorem scanBlocks_eq_ok {header : Option Nat} {offset : Nat} {blocks : List Block} {text : Text}
    (inside : ∀ front back, text = front ++ back → startsLoopControl back →
      .loop ∈ blocksThrough header offset blocks front) :
    scanBlocks header offset blocks text = .ok (blocksThrough header offset blocks text) := by
  induction text generalizing offset blocks with
  | nil => rfl
  | cons c text ih =>
    have here : ¬ (startsLoopControl (c :: text) ∧ .loop ∉ blocks) := by
      rintro ⟨starts, outside⟩
      exact outside (inside [] (c :: text) rfl starts)
    rw [scanBlocks, if_neg here, blocksThrough]
    apply ih
    intro front back split starts
    exact inside (c :: front) back (by rw [split, List.cons_append]) starts

theorem count_loop_blocksAfter (blocks : List Block) (header : Bool) (c : Char) :
    blocks.count .loop ≤ (blocksAfter blocks header c).count .loop + [c].count '}' := by
  unfold blocksAfter
  split
  · rw [List.count_cons]
    omega
  · split
    · rename_i closing
      subst closing
      cases blocks with
      | nil => simp
      | cons block blocks =>
        rw [List.count_cons, List.tail_cons, List.count_singleton_self]
        split <;> omega
    · omega

/-- A closing brace closes at most one loop. -/
theorem count_loop_blocksThrough (header : Option Nat) (offset : Nat) (blocks : List Block)
    (text : Text) :
    blocks.count .loop ≤
      (blocksThrough header offset blocks text).count .loop + text.count '}' := by
  induction text generalizing offset blocks with
  | nil => exact Nat.le_add_right _ _
  | cons c text ih =>
    have step := count_loop_blocksAfter blocks (header = some offset) c
    have rest := ih (offset + c.utf8Size) (blocksAfter blocks (header = some offset) c)
    have split : (c :: text).count '}' = [c].count '}' + text.count '}' := by
      rw [← List.count_append, List.singleton_append]
    rw [blocksThrough]
    omega

theorem count_loop_header (offset : Nat) (blocks : List Block) (head inside : Text) :
    blocks.count .loop + 1 ≤
      (blocksThrough (some (offset + byteLength head)) offset blocks (head ++ '{' :: inside)).count
        .loop + (head ++ '{' :: inside).count '}' := by
  have before := count_loop_blocksThrough (some (offset + byteLength head)) offset blocks head
  rw [blocksThrough_append, blocksThrough, List.count_append]
  generalize blocksThrough (some (offset + byteLength head)) offset blocks head = reached at before ⊢
  have opened : blocksAfter reached (some (offset + byteLength head) = some (offset + byteLength head))
      '{' = .loop :: reached := by simp [blocksAfter]
  have after := count_loop_blocksThrough (some (offset + byteLength head))
    (offset + byteLength head + ('{' : Char).utf8Size) (.loop :: reached) inside
  have brace : ('{' :: inside).count '}' = inside.count '}' := List.count_cons_of_ne (by decide)
  rw [opened, brace]
  rw [List.count_cons_self] at after
  omega

/-! ### Keywords along a line -/

theorem firstLoopControl?_ne_none {front back : Text} (starts : startsLoopControl back) :
    firstLoopControl? (front ++ back) ≠ none := by
  induction front with
  | nil =>
    cases back with
    | nil => cases starts
    | cons c back => simp [firstLoopControl?, starts]
  | cons c front ih =>
    rw [List.cons_append, firstLoopControl?]
    split
    · simp
    · simpa using ih

/-- The keywords of a line come before all its closing braces and after its header. -/
def Disciplined (line : Text) : Prop :=
  ∀ front back, line = front ++ back → startsLoopControl back →
    '}' ∉ front ∧ ∀ place ∈ headerBrace? line, place ≤ byteLength front

/-- Every opening brace of a line is its header's, with no closing brace before it. -/
def OnlyHeaderBrace (line : Text) : Prop :=
  ∀ front back, line = front ++ '{' :: back →
    headerBrace? line = some (byteLength front) ∧ '}' ∉ front

theorem forall_split_iff (line : Text) (p : Text → Text → Prop) :
    (∀ front back, line = front ++ back → p front back) ↔
      ∀ i < line.length + 1, p (line.take i) (line.drop i) := by
  constructor
  · intro all i _
    exact all _ _ (List.take_append_drop i line).symm
  · rintro all front back rfl
    have here := all front.length (by rw [List.length_append]; omega)
    rwa [List.take_left, List.drop_left] at here

instance (line : Text) : Decidable (Disciplined line) :=
  decidable_of_iff _ (forall_split_iff line _).symm

instance (line : Text) : Decidable (OnlyHeaderBrace line) :=
  decidable_of_iff (∀ i < line.length + 1, (line.drop i).head? = some '{' →
      headerBrace? line = some (byteLength (line.take i)) ∧ '}' ∉ line.take i) <| by
    rw [← forall_split_iff line fun front back => back.head? = some '{' →
      headerBrace? line = some (byteLength front) ∧ '}' ∉ front]
    constructor
    · intro all front back split
      exact all front ('{' :: back) split rfl
    · intro all front back split brace
      obtain ⟨rest, rfl⟩ := List.head?_eq_some_iff.mp brace
      exact all front rest split

/-- A keyword after the header's brace has that brace before it. -/
theorem exists_header_of_keyword {line front back : Text} {place : Nat}
    (found : headerBrace? line = some place) (split : line = front ++ back)
    (starts : startsLoopControl back) (after : place ≤ byteLength front) :
    ∃ head inside, front = head ++ '{' :: inside ∧ place = byteLength head := by
  obtain ⟨header, rest, whole, rfl⟩ := exists_loopHeader_of_headerBrace? found
  rw [split] at whole
  have notBrace : back ≠ '{' :: rest := by
    rintro rfl
    exact not_startsLoopControl_brace rest starts
  rcases List.append_eq_append_iff.mp whole with ⟨extra, long, brace⟩ | ⟨extra, long, brace⟩
  · -- The header is no longer than what precedes the keyword, so it would be just that.
    cases extra with
    | nil => exact absurd brace notBrace
    | cons c extra =>
      have size := c.utf8Size_pos
      rw [long, byteLength_append, byteLength_cons] at after
      omega
  · cases extra with
    | nil => exact absurd brace.symm notBrace
    | cons c extra =>
      obtain ⟨rfl, -⟩ := List.cons.inj brace
      exact ⟨header.text, extra, long, rfl⟩

/-! ### One line -/

/-- How many loops the counter sees around the keywords of a line. -/
def insideDepth (depth : Nat) (line : Text) : Nat :=
  if (headerBrace? line).isSome then depth + 1 else depth

theorem insideDepth_of_no_header {line : Text} (noHeader : headerBrace? line = none) (depth : Nat) :
    insideDepth depth line = depth := by
  simp [insideDepth, noHeader]

theorem insideDepth_of_header {line : Text} {place : Nat} (found : headerBrace? line = some place)
    (depth : Nat) : insideDepth depth line = depth + 1 := by
  simp [insideDepth, found]

theorem trackDepth_of_no_keyword {line : Text} (none : firstLoopControl? line = none) (depth : Nat) :
    trackDepth depth line = .ok (insideDepth depth line - line.count '}') := by
  rw [trackDepth, none]
  rfl

theorem trackDepth_of_keyword {line : Text} {place : Nat} (found : firstLoopControl? line = some place)
    (depth : Nat) :
    trackDepth depth line =
      if insideDepth depth line = 0 then .error place
      else .ok (insideDepth depth line - line.count '}') := by
  rw [trackDepth, found]
  rfl

/-- Past the header of a line, the stack has lost at most one loop for each closing brace. -/
theorem insideDepth_le_count {line front : Text} {depth : Nat} {blocks : List Block}
    (bound : depth ≤ blocks.count .loop)
    (past : ∀ place, headerBrace? line = some place →
      ∃ head inside, front = head ++ '{' :: inside ∧ place = byteLength head) :
    insideDepth depth line ≤
      (blocksThrough (headerBrace? line) 0 blocks front).count .loop + front.count '}' := by
  cases found : headerBrace? line with
  | none =>
    have kept := count_loop_blocksThrough none 0 blocks front
    rw [insideDepth_of_no_header found]
    omega
  | some place =>
    obtain ⟨head, inside, rfl, rfl⟩ := past place found
    have opened := count_loop_header 0 blocks head inside
    rw [Nat.zero_add] at opened
    rw [insideDepth_of_header found]
    omega

theorem trackBlocks_eq_ok {line : Text} {depth : Nat} {blocks : List Block}
    (disciplined : Disciplined line) (bound : depth ≤ blocks.count .loop)
    (allowed : firstLoopControl? line = none ∨ insideDepth depth line ≠ 0) :
    trackBlocks blocks line = .ok (blocksThrough (headerBrace? line) 0 blocks line) := by
  apply scanBlocks_eq_ok
  intro front back split starts
  have keyword : firstLoopControl? line ≠ none := split ▸ firstLoopControl?_ne_none starts
  have positive := allowed.resolve_left keyword
  obtain ⟨noClosing, afterHeader⟩ := disciplined front back split starts
  have around := insideDepth_le_count bound fun place found =>
    exists_header_of_keyword found split starts (afterHeader place found)
  rw [List.count_eq_zero.mpr noClosing] at around
  exact List.count_pos_iff.mp (by omega)

/-- A line that the counter lets pass is one that the stack lets pass. -/
theorem trackBlocks_of_trackDepth {line : Text} {depth next : Nat} {blocks : List Block}
    (disciplined : Disciplined line) (bound : depth ≤ blocks.count .loop)
    (passed : trackDepth depth line = .ok next) :
    ∃ reached, trackBlocks blocks line = .ok reached ∧ next ≤ reached.count .loop := by
  have ending : insideDepth depth line ≤
      (blocksThrough (headerBrace? line) 0 blocks line).count .loop + line.count '}' := by
    apply insideDepth_le_count bound
    intro place found
    obtain ⟨header, rest, whole, same⟩ := exists_loopHeader_of_headerBrace? found
    exact ⟨header.text, rest, whole, same⟩
  cases found : firstLoopControl? line with
  | none =>
    rw [trackDepth_of_no_keyword found] at passed
    cases passed
    exact ⟨_, trackBlocks_eq_ok disciplined bound (.inl found), by omega⟩
  | some place =>
    rw [trackDepth_of_keyword found] at passed
    split at passed
    · cases passed
    · rename_i positive
      cases passed
      exact ⟨_, trackBlocks_eq_ok disciplined bound (.inr positive), by omega⟩

/-! ### All lines -/

theorem firstFailure?_trackBlocks_eq_none {pieces : List Text} {depth : Nat} {blocks : List Block}
    (disciplined : ∀ line ∈ pieces, Disciplined line) (bound : depth ≤ blocks.count .loop)
    (passed : firstFailure? trackDepth depth pieces = none) :
    firstFailure? trackBlocks blocks pieces = none := by
  induction pieces generalizing depth blocks with
  | nil => rfl
  | cons line rest ih =>
    rw [firstFailure?] at passed
    split at passed
    · cases passed
    · rename_i next track
      obtain ⟨reached, same, bound'⟩ :=
        trackBlocks_of_trackDepth (disciplined line (by simp)) bound track
      rw [Option.map_eq_none_iff] at passed
      rw [firstFailure?, same]
      simp only [Option.map_eq_none_iff]
      exact ih (fun line member => disciplined line (List.mem_cons_of_mem _ member)) bound' passed

theorem firstFailure?_append_of_some {State : Type} {track : State → Text → Except Nat State}
    {state : State} {front : List Text} {offset : Nat}
    (failed : firstFailure? track state front = some offset) (back : List Text) :
    firstFailure? track state (front ++ back) = some offset := by
  induction front generalizing state offset with
  | nil => cases failed
  | cons line front ih =>
    rw [firstFailure?] at failed
    rw [List.cons_append, firstFailure?]
    split at failed
    · rename_i place here
      simpa [here] using failed
    · rename_i next passed
      obtain ⟨within, later, rfl⟩ := Option.map_eq_some_iff.mp failed
      simp only [ih later, Option.map_some]

theorem line_ofOffset_of_row {text line : Text} {rows rest : List Text} {fault : Fault} {within : Nat}
    (split : lines text = rows ++ line :: rest) (stands : fault.StandsAt line within) :
    (Position.ofOffset text (byteLength (endLines rows) + within)).line = rows.length + 1 := by
  obtain ⟨token, -, front, back, rfl, rfl⟩ := stands
  have start : front <+: front ++ token ++ back := by
    rw [List.append_assoc]
    exact List.prefix_append _ _
  rw [Position.ofOffset_of_front split start]

/-- What the stack refuses is refused by the counter, no later than on the same line. -/
theorem exists_failure_of_trackBlocks {text : Text} {offset : Nat}
    (disciplined : ∀ line ∈ lines text, Disciplined line)
    (failed : firstFailure? trackBlocks [] (lines text) = some offset) :
    ∃ earlier, firstFailure? trackDepth 0 (lines text) = some earlier ∧
      (Position.ofOffset text earlier).line ≤ (Position.ofOffset text offset).line := by
  obtain ⟨rows, line, rest, reached, within, split, here, rfl, alone⟩ :=
    exists_row_of_firstFailure? failed
  have wholeSplit : lines text = (rows ++ [line]) ++ rest := by simp [split]
  have failsToo : firstFailure? trackDepth 0 (rows ++ [line]) ≠ none := by
    intro passed
    have member : ∀ line' ∈ rows ++ [line], Disciplined line' := fun line' member =>
      disciplined line' (by rw [wholeSplit]; exact List.mem_append_left _ member)
    rw [firstFailure?_trackBlocks_eq_none member (Nat.zero_le _) passed] at alone
    cases alone
  obtain ⟨earlier, found⟩ := Option.ne_none_iff_exists'.mp failsToo
  refine ⟨earlier, by rw [wholeSplit]; exact firstFailure?_append_of_some found rest, ?_⟩
  obtain ⟨rows', line', rest', reached', within', split', here', rfl, -⟩ :=
    exists_row_of_firstFailure? found
  have whole' : lines text = rows' ++ line' :: (rest' ++ rest) := by simp [wholeSplit, split']
  rw [line_ofOffset_of_row split (trackBlocks_standsAt _ _ _ here),
    line_ofOffset_of_row whole' (trackDepth_standsAt _ _ _ here')]
  have sizes := congrArg List.length split'
  simp only [List.length_append, List.length_cons, List.length_nil] at sizes
  omega

/-! ### Texts that open nothing but loops -/

theorem blocksThrough_replicate (header : Option Nat) (offset depth : Nat) {text : Text}
    (noOpening : '{' ∉ text) :
    blocksThrough header offset (List.replicate depth .loop) text =
      List.replicate (depth - text.count '}') .loop := by
  induction text generalizing offset depth with
  | nil => rfl
  | cons c text ih =>
    rw [List.mem_cons, not_or] at noOpening
    rw [blocksThrough, blocksAfter, if_neg (Ne.symm noOpening.1)]
    split
    · rename_i closing
      rw [List.tail_replicate, ih _ _ noOpening.2, closing, List.count_cons_self]
      congr 1
      omega
    · rename_i other
      rw [ih _ _ noOpening.2, List.count_cons_of_ne other]

theorem blocksThrough_header (depth : Nat) {head inside : Text} (headOpening : '{' ∉ head)
    (headClosing : '}' ∉ head) (noOpening : '{' ∉ inside) :
    blocksThrough (some (byteLength head)) 0 (List.replicate depth .loop) (head ++ '{' :: inside) =
      List.replicate (depth + 1 - (head ++ '{' :: inside).count '}') .loop := by
  have opened : blocksAfter (List.replicate depth .loop)
      (some (byteLength head) = some (0 + byteLength head)) '{' =
        List.replicate (depth + 1) .loop := by
    simp [blocksAfter, List.replicate_succ]
  have brace : ('{' :: inside).count '}' = inside.count '}' := List.count_cons_of_ne (by decide)
  have before := blocksThrough_replicate (some (byteLength head)) 0 depth headOpening
  rw [List.count_eq_zero.mpr headClosing, Nat.sub_zero] at before
  rw [blocksThrough_append, before, blocksThrough, opened, blocksThrough_replicate _ _ _ noOpening,
    List.count_append, List.count_eq_zero.mpr headClosing, Nat.zero_add, brace]

theorem scanBlocks_nil_of_keyword (header : Option Nat) (offset : Nat) {text : Text} {place : Nat}
    (noOpening : '{' ∉ text) (found : firstLoopControl? text = some place) :
    scanBlocks header offset [] text = .error (offset + place) := by
  induction text generalizing offset place with
  | nil => cases found
  | cons c text ih =>
    rw [List.mem_cons, not_or] at noOpening
    rw [firstLoopControl?] at found
    split at found
    · rename_i starts
      cases found
      rw [scanBlocks, if_pos ⟨starts, List.not_mem_nil⟩, Nat.add_zero]
    · rename_i later
      obtain ⟨within, first, rfl⟩ := Option.map_eq_some_iff.mp found
      have none : blocksAfter [] (header = some offset) c = [] := by
        simp [blocksAfter, Ne.symm noOpening.1]
      rw [scanBlocks, if_neg (fun here => later here.1), none, ih _ noOpening.2 first, Nat.add_assoc]

theorem OnlyHeaderBrace.not_mem {line : Text} (only : OnlyHeaderBrace line)
    (noHeader : headerBrace? line = none) : '{' ∉ line := by
  intro member
  obtain ⟨front, back, split⟩ := List.append_of_mem member
  have found := (only front back split).1
  rw [noHeader] at found
  cases found

/-- The line around the brace of its header has no other opening brace. -/
theorem OnlyHeaderBrace.exists_split {line : Text} {place : Nat} (only : OnlyHeaderBrace line)
    (found : headerBrace? line = some place) :
    ∃ head body, line = head ++ '{' :: body ∧ place = byteLength head ∧ '{' ∉ head ∧ '}' ∉ head ∧
      '{' ∉ body := by
  obtain ⟨header, body, whole, rfl⟩ := exists_loopHeader_of_headerBrace? found
  have brace := ('{' : Char).utf8Size_pos
  refine ⟨header.text, body, whole, rfl, ?_, (only _ _ whole).2, ?_⟩
  · intro member
    obtain ⟨front, back, split⟩ := List.append_of_mem member
    have place := (only front (back ++ '{' :: body) (by rw [whole, split]; simp)).1
    rw [found, Option.some.injEq, split, byteLength_append, byteLength_cons] at place
    omega
  · intro member
    obtain ⟨front, back, split⟩ := List.append_of_mem member
    have place := (only (header.text ++ '{' :: front) back (by rw [whole, split]; simp)).1
    rw [found, Option.some.injEq, byteLength_append, byteLength_cons] at place
    omega

theorem OnlyHeaderBrace.blocksThrough {line : Text} (only : OnlyHeaderBrace line) (depth : Nat) :
    Text.blocksThrough (headerBrace? line) 0 (List.replicate depth .loop) line =
      List.replicate (insideDepth depth line - line.count '}') .loop := by
  cases header : headerBrace? line with
  | none =>
    rw [blocksThrough_replicate none 0 depth (only.not_mem header), insideDepth_of_no_header header]
  | some place =>
    obtain ⟨head, body, rfl, rfl, headOpening, headClosing, bodyOpening⟩ := only.exists_split header
    rw [blocksThrough_header depth headOpening headClosing bodyOpening, insideDepth_of_header header]

/-- A stack of loops does what their number does. -/
theorem trackBlocks_replicate {line : Text} (disciplined : Disciplined line)
    (only : OnlyHeaderBrace line) (depth : Nat) :
    trackBlocks (List.replicate depth .loop) line =
      (trackDepth depth line).map (List.replicate · .loop) := by
  have bound : depth ≤ (List.replicate depth Block.loop).count .loop := by
    rw [List.count_replicate_self]
  cases found : firstLoopControl? line with
  | none =>
    rw [trackDepth_of_no_keyword found, trackBlocks_eq_ok disciplined bound (.inl found),
      only.blocksThrough]
    rfl
  | some place =>
    rw [trackDepth_of_keyword found]
    split
    · rename_i zero
      -- No loop is open, and the line is no header, so it opens nothing at all.
      cases header : headerBrace? line with
      | some place =>
        rw [insideDepth_of_header header] at zero
        cases zero
      | none =>
        rw [insideDepth_of_no_header header] at zero
        rw [zero, trackBlocks, List.replicate_zero,
          scanBlocks_nil_of_keyword _ 0 (only.not_mem header) found, Nat.zero_add]
        rfl
    · rename_i positive
      rw [trackBlocks_eq_ok disciplined bound (.inr positive), only.blocksThrough]
      rfl

theorem firstFailure?_replicate {pieces : List Text} (disciplined : ∀ line ∈ pieces, Disciplined line)
    (only : ∀ line ∈ pieces, OnlyHeaderBrace line) (depth : Nat) :
    firstFailure? trackBlocks (List.replicate depth .loop) pieces =
      firstFailure? trackDepth depth pieces := by
  induction pieces generalizing depth with
  | nil => rfl
  | cons line rest ih =>
    have later := ih (fun line member => disciplined line (List.mem_cons_of_mem _ member))
      (fun line member => only line (List.mem_cons_of_mem _ member))
    rw [firstFailure?, firstFailure?,
      trackBlocks_replicate (disciplined line (by simp)) (only line (by simp))]
    cases trackDepth depth line with
    | error place => rfl
    | ok next => simp only [Except.map, later]

/-! ### Rejections -/

/-- If every line is disciplined, the counter refuses what the stack refuses, on the same line or
before it. The two do the same if nothing but loops is opened. -/
theorem counter_refuses_no_later {text : Text} (disciplined : ∀ line ∈ lines text, Disciplined line) :
    (∀ rejection, checkLoopControl .blockStack text = .error rejection →
      ∃ earlier, checkLoopControl .counter text = .error earlier ∧
        earlier.position.line ≤ rejection.position.line) ∧
    (checkLoopControl .counter text = .ok () → checkLoopControl .blockStack text = .ok ()) ∧
    ((∀ line ∈ lines text, OnlyHeaderBrace line) →
      checkLoopControl .blockStack text = checkLoopControl .counter text) := by
  have refused : ∀ rejection, checkLoopControl .blockStack text = .error rejection →
      ∃ earlier, checkLoopControl .counter text = .error earlier ∧
        earlier.position.line ≤ rejection.position.line := by
    intro rejection failed
    unfold checkLoopControl at failed
    split at failed
    · cases failed
    · rename_i offset found
      cases failed
      obtain ⟨earlier, first, noLater⟩ := exists_failure_of_trackBlocks disciplined found
      refine ⟨.locate .outsideLoop text earlier, ?_, noLater⟩
      simp only [checkLoopControl, outsideLoop?, first]
  refine ⟨refused, ?_, ?_⟩
  · intro passed
    cases result : checkLoopControl .blockStack text with
    | ok _ => rfl
    | error rejection =>
      obtain ⟨earlier, failed, -⟩ := refused rejection result
      rw [passed] at failed
      cases failed
  · intro only
    have same := firstFailure?_replicate disciplined only 0
    rw [List.replicate_zero] at same
    simp only [checkLoopControl, outsideLoop?, same]

/-- A branch in a loop, a keyword after the branch and one after the loop. -/
def branchThenBreak : Text :=
  "यावत् (x) \x7b\n यदि (y) \x7b\n \x7d\n विराम;\n\x7d\nअग्रिम;".toList

/-- Loops with braces closed on later lines, the last keyword outside of them. -/
def nestedLoops : Text :=
  "यावत् (x) \x7b\nयावत् (y) \x7b विराम;\n अग्रिम; \x7d\n\x7d\x7d\nविराम;".toList

theorem branchThenBreak_refused_no_later :
    (∀ line ∈ lines branchThenBreak, Disciplined line) ∧
    (∃ rejection earlier, checkLoopControl .blockStack branchThenBreak = .error rejection ∧
      rejection.position.line = 6 ∧ checkLoopControl .counter branchThenBreak = .error earlier ∧
      earlier.position.line ≤ 6) ∧
    (∀ line ∈ lines nestedLoops, Disciplined line ∧ OnlyHeaderBrace line) ∧
    (∃ rejection, checkLoopControl .counter nestedLoops = .error rejection) ∧
    checkLoopControl .blockStack nestedLoops = checkLoopControl .counter nestedLoops := by
  have refused : checkLoopControl .blockStack branchThenBreak =
      .error ⟨.outsideLoop, 6, 1, "अग्रिम;".toList⟩ := by decide +kernel
  have outside : checkLoopControl .counter nestedLoops =
      .error ⟨.outsideLoop, 5, 1, "विराम;".toList⟩ := by decide +kernel
  have branch : ∀ line ∈ lines branchThenBreak, Disciplined line := by decide +kernel
  have nested : ∀ line ∈ lines nestedLoops, Disciplined line ∧ OnlyHeaderBrace line := by
    decide +kernel
  obtain ⟨noLater, -, -⟩ := counter_refuses_no_later branch
  obtain ⟨-, -, same⟩ := counter_refuses_no_later fun line member => (nested line member).1
  obtain ⟨earlier, failed, line⟩ := noLater _ refused
  exact ⟨branch, ⟨_, earlier, refused, rfl, failed, line⟩, nested, ⟨_, outside⟩,
    same fun line member => (nested line member).2⟩

end Lipi.Text
