import Lipi.Proofs.Program.FaultPlace

/-!
# The walk over hits

A line can be searched for each loop-control keyword by itself, from the left and without overlaps.
The hits of all keywords are merged and sorted, and a walk over the line takes them from a queue: a
place is held against the front of the queue only. A hit out of order, twice, or at a place that the
walk never comes to would hide all that are behind it. There is none: the sorted hits are the places
where a keyword starts, in order (`loopHits_eq`), so the walk is the scan that asks at every place
(`walkHits_placesOf`).
-/

namespace Lipi.Text

/-- The offsets at which a word is found from the left, without overlaps: the last one found goes on
for `taken` more characters. The text starts at `offset`. -/
def matchIndices (word : Text) (offset taken : Nat) : Text → List Nat
  | [] => []
  | c :: text =>
    match taken with
    | taken + 1 => matchIndices word (offset + c.utf8Size) taken text
    | 0 =>
      if word.isPrefixOf (c :: text) then
        offset :: matchIndices word (offset + c.utf8Size) (word.length - 1) text
      else matchIndices word (offset + c.utf8Size) 0 text

/-- The offsets of break and continue keywords, found one keyword after the other and sorted. -/
def loopHits (line : Text) : List Nat :=
  ((Keyword.all.filter Keyword.isLoopControl).flatMap fun keyword =>
    matchIndices keyword.spelling 0 0 line).mergeSort

/-- Goes through a line as `scanBlocks` does, but with the keywords told by the queue of hits. -/
def walkHits (header : Option Nat) (offset : Nat) (blocks : List Block) (pending : List Nat) :
    Text → Except Nat (List Block)
  | [] => .ok blocks
  | c :: text =>
    if pending.head? = some offset ∧ Block.loop ∉ blocks then .error offset
    else
      walkHits header (offset + c.utf8Size) (blocksAfter blocks (header = some offset) c)
        (if pending.head? = some offset then pending.tail else pending) text

def walkBlocks (blocks : List Block) (line : Text) : Except Nat (List Block) :=
  walkHits (headerBrace? line) 0 blocks (loopHits line) line

def walkDepth (depth : Nat) (line : Text) : Except Nat Nat :=
  let inside := if (headerBrace? line).isSome then depth + 1 else depth
  match (loopHits line).head? with
  | some offset => if inside = 0 then .error offset else .ok (inside - line.count '}')
  | none => .ok (inside - line.count '}')

/-- The offset of the first keyword that the walk finds outside of every loop. -/
def walkFailure? (tracking : LoopTracking) (text : Text) : Option Nat :=
  match tracking with
  | .blockStack => firstFailure? walkBlocks [] (lines text)
  | .counter => firstFailure? walkDepth 0 (lines text)

/-- The check of loop control by hits. -/
def walkLoopControl (tracking : LoopTracking) (text : Text) : Except Rejection Unit :=
  match walkFailure? tracking text with
  | none => .ok ()
  | some offset => .error (.locate .outsideLoop text offset)

/-! ### Places -/

/-- The offsets of all places at which `starts` holds of what follows. -/
def placesOf (starts : Text → Bool) (offset : Nat) : Text → List Nat
  | [] => []
  | c :: text =>
    if starts (c :: text) then offset :: placesOf starts (offset + c.utf8Size) text
    else placesOf starts (offset + c.utf8Size) text

theorem le_of_mem_placesOf {starts : Text → Bool} {offset place : Nat} {text : Text}
    (member : place ∈ placesOf starts offset text) : offset ≤ place := by
  induction text generalizing offset with
  | nil => cases member
  | cons c text ih =>
    rw [placesOf] at member
    split at member
    · rcases List.mem_cons.mp member with rfl | later
      · exact Nat.le_refl _
      · exact Nat.le_of_add_right_le (ih later)
    · exact Nat.le_of_add_right_le (ih member)

theorem placesOf_pairwise (starts : Text → Bool) (offset : Nat) (text : Text) :
    (placesOf starts offset text).Pairwise (· ≤ ·) := by
  induction text generalizing offset with
  | nil => exact .nil
  | cons c text ih =>
    rw [placesOf]
    split
    · refine .cons ?_ (ih _)
      intro place later
      exact Nat.le_of_add_right_le (le_of_mem_placesOf later)
    · exact ih _

theorem placesOf_false (offset : Nat) (text : Text) : placesOf (fun _ => false) offset text = [] := by
  induction text generalizing offset with
  | nil => rfl
  | cons c text ih => exact ih _

/-- Two kinds of places that never coincide, one after the other or all in order. -/
theorem placesOf_or_perm {first second : Text → Bool}
    (apart : ∀ text, first text → second text → False) (offset : Nat) (text : Text) :
    (placesOf first offset text ++ placesOf second offset text).Perm
      (placesOf (fun text => first text || second text) offset text) := by
  induction text generalizing offset with
  | nil => exact .refl _
  | cons c text ih =>
    have rest := ih (offset + c.utf8Size)
    by_cases isFirst : first (c :: text)
    · have notSecond : ¬ second (c :: text) := apart _ isFirst
      simpa [placesOf, isFirst, notSecond] using rest
    · by_cases isSecond : second (c :: text)
      · have middle := List.perm_middle.trans (rest.cons offset)
        simpa [placesOf, isFirst, isSecond] using middle
      · simpa [placesOf, isFirst, isSecond] using rest

/-- Places of several words, searched one after the other or all at once. -/
theorem flatMap_placesOf_perm {words : List Text}
    (apart : words.Pairwise fun a b => ¬ a <+: b ∧ ¬ b <+: a) (offset : Nat) (text : Text) :
    (words.flatMap fun word => placesOf word.isPrefixOf offset text).Perm
      (placesOf (fun text => words.any (·.isPrefixOf text)) offset text) := by
  induction words with
  | nil =>
    show List.Perm [] (placesOf (fun _ => false) offset text)
    rw [placesOf_false]
  | cons word words ih =>
    obtain ⟨others, rest⟩ := List.pairwise_cons.mp apart
    simp only [List.flatMap_cons, List.any_cons]
    refine ((ih rest).append_left _).trans (placesOf_or_perm ?_ offset text)
    intro text here there
    obtain ⟨other, member, start⟩ := List.any_eq_true.mp there
    rw [List.isPrefixOf_iff_prefix] at here start
    rcases List.prefix_or_prefix_of_prefix here start with inside | inside
    · exact (others other member).1 inside
    · exact (others other member).2 inside

/-! ### Hits -/

/-- A word that does not have its first character again cannot overlap itself. -/
theorem matchIndices_eq {first : Char} {others : Text} (once : first ∉ others) {taken : Nat}
    {text : Text} (passed : first ∉ text.take taken) (offset : Nat) :
    matchIndices (first :: others) offset taken text =
      placesOf (first :: others).isPrefixOf offset text := by
  induction text generalizing offset taken with
  | nil => rfl
  | cons c text ih =>
    cases taken with
    | succ taken =>
      rw [List.take_succ_cons, List.mem_cons, not_or] at passed
      have other : (first :: others).isPrefixOf (c :: text) = false := by
        simp [List.isPrefixOf, passed.1]
      rw [matchIndices, placesOf, other, ih passed.2]
      rfl
    | zero =>
      rw [matchIndices, placesOf]
      split
      · rename_i start
        -- What the match goes on for is the rest of the word.
        have within : others <+: text := by
          rw [List.isPrefixOf_iff_prefix] at start
          exact (List.cons_prefix_cons.mp start).2
        have rest : text.take others.length = others := (List.prefix_iff_eq_take.mp within).symm
        rw [ih]
        simpa [rest] using once
      · rw [ih (by simp)]

theorem startsLoopControl_eq_any (text : Text) :
    startsLoopControl text =
      ((Keyword.all.filter Keyword.isLoopControl).map Keyword.spelling).any
        (·.isPrefixOf text) := by
  rw [Bool.eq_iff_iff, startsLoopControl_iff_spelling]
  simp [Keyword.mem_all]

theorem matchIndices_spelling (keyword : Keyword) (line : Text) :
    matchIndices keyword.spelling 0 0 line = placesOf keyword.spelling.isPrefixOf 0 line := by
  have distinct : keyword.spelling.Nodup := by cases keyword <;> decide
  have someChar : keyword.spelling ≠ [] := by cases keyword <;> decide
  obtain ⟨first, others, spelled⟩ := List.exists_cons_of_ne_nil someChar
  rw [spelled] at distinct ⊢
  exact matchIndices_eq (List.nodup_cons.mp distinct).1 (by simp) 0

/-- The sorted hits of a line are the places in it where a keyword starts, in order. -/
theorem loopHits_eq (line : Text) : loopHits line = placesOf startsLoopControl 0 line := by
  have apart : ((Keyword.all.filter Keyword.isLoopControl).map Keyword.spelling).Pairwise
      fun a b => ¬ a <+: b ∧ ¬ b <+: a := by decide
  have merged := flatMap_placesOf_perm apart 0 line
  rw [← funext startsLoopControl_eq_any, List.flatMap_map] at merged
  simp only [← matchIndices_spelling] at merged
  have sorted : (loopHits line).Pairwise fun a b => decide (a ≤ b) = true := by
    apply List.pairwise_mergeSort
    · simpa using fun a b c => @Nat.le_trans a b c
    · simpa using Nat.le_total
  simp only [decide_eq_true_iff] at sorted
  exact List.Perm.eq_of_pairwise (fun _ _ _ _ => Nat.le_antisymm) sorted
    (placesOf_pairwise _ _ _) ((List.mergeSort_perm _ _).trans merged)

/-! ### The walk -/

theorem head?_placesOf_iff {starts : Text → Bool} {offset : Nat} {c : Char} {text : Text} :
    (placesOf starts offset (c :: text)).head? = some offset ↔ starts (c :: text) := by
  constructor
  · intro first
    rw [placesOf] at first
    split at first
    · assumption
    · have later := le_of_mem_placesOf (List.mem_of_head? first)
      have size := c.utf8Size_pos
      omega
  · intro here
    rw [placesOf, if_pos here]
    rfl

theorem walkHits_placesOf (header : Option Nat) (offset : Nat) (blocks : List Block) (text : Text) :
    walkHits header offset blocks (placesOf startsLoopControl offset text) text =
      scanBlocks header offset blocks text := by
  induction text generalizing offset blocks with
  | nil => rfl
  | cons c text ih =>
    -- The queue is left with the places of the rest, whether or not its front is taken.
    have left : (if startsLoopControl (c :: text)
        then (placesOf startsLoopControl offset (c :: text)).tail
        else placesOf startsLoopControl offset (c :: text)) =
          placesOf startsLoopControl (offset + c.utf8Size) text := by
      rw [placesOf]
      split <;> rfl
    rw [walkHits, scanBlocks]
    simp only [head?_placesOf_iff, left, ih]

theorem walkBlocks_eq : walkBlocks = trackBlocks := by
  funext blocks line
  rw [walkBlocks, loopHits_eq, walkHits_placesOf, trackBlocks]

theorem head?_placesOf (offset : Nat) (text : Text) :
    (placesOf startsLoopControl offset text).head? = (firstLoopControl? text).map (offset + ·) := by
  induction text generalizing offset with
  | nil => rfl
  | cons c text ih =>
    rw [placesOf, firstLoopControl?]
    split
    · rfl
    · rw [ih, Option.map_map]
      congr 1
      funext place
      exact Nat.add_assoc _ _ _

theorem head?_loopHits (line : Text) : (loopHits line).head? = firstLoopControl? line := by
  rw [loopHits_eq, head?_placesOf]
  simp

theorem walkDepth_eq : walkDepth = trackDepth := by
  funext depth line
  cases found : firstLoopControl? line with
  | none => simp only [walkDepth, trackDepth, head?_loopHits, found]
  | some offset => simp only [walkDepth, trackDepth, head?_loopHits, found]

theorem walkFailure?_eq (tracking : LoopTracking) (text : Text) :
    walkFailure? tracking text = outsideLoop? tracking text := by
  cases tracking with
  | blockStack => exact congrArg (firstFailure? · [] (lines text)) walkBlocks_eq
  | counter => exact congrArg (firstFailure? · 0 (lines text)) walkDepth_eq

/-- Both trackings may take the keywords of a line from its sorted hits. -/
theorem walkLoopControl_eq (tracking : LoopTracking) (text : Text) :
    walkLoopControl tracking text = checkLoopControl tracking text := by
  have failure := walkFailure?_eq tracking text
  cases found : outsideLoop? tracking text with
  | none => simp only [walkLoopControl, checkLoopControl, failure, found]
  | some offset => simp only [walkLoopControl, checkLoopControl, failure, found]

end Lipi.Text
