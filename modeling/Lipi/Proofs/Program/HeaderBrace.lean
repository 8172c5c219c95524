import Lipi.Proofs.Program.FaultPlace
import Lipi.Proofs.Program.LoopHeader
import Lipi.Proofs.Text.Pattern

/-!
# The brace of a loop

After the loop keyword and the parenthesis that opens its condition, the first brace that follows a
closing parenthesis and white space opens the loop's body. Three readings of a line agree on it: the
scan for it (`headerBrace?`), the least offset of such a brace (`BraceAfter`), and a match of
`headerPattern` against the line without its indentation, in which the condition takes as little as
it can. The tracking of blocks goes by offsets as well. It meets the brace, opens the loop there and
opens no other loop on the line (`trackBlocks_of_headerBrace?`).
-/

namespace Lipi

/-! ### The pattern of a header -/

namespace Text

open Pattern

/-- From after the first parenthesis of a header to its brace. -/
def bodyPattern : Pattern :=
  [.least (· ≠ '\n'), .word [')'], .most isSpace, .word ['{']]

def headerPattern : Pattern :=
  .word Keyword.loop.spelling :: .most isSpace :: .word ['('] :: bodyPattern

/-- The offset in a line of the last character that the pattern takes from it, where the pattern
starts after the indentation. -/
def matchedBrace? (line : Text) : Option Nat :=
  (first? headerPattern (trimStart line)).map fun pieces =>
    byteLength line - byteLength (trimStart line) + byteLength pieces.flatten - 1

theorem first?_closing (c : Char) (text : Text) :
    first? [.word [')'], .most isSpace, .word ['{']] (c :: text) =
      if c = ')' ∧ (trimStart text).head? = some '{' then
        some [[')'], text.takeWhile isSpace, ['{']]
      else none := by
  have visible : isSpace '{' = false := by decide
  rw [first?_word_cons]
  by_cases closing : c = ')'
  · subst closing
    have parts : after? [')'] (')' :: text) = some text := after?_append [')'] text
    rw [parts, Option.bind_some, first?_most_word visible, first?_word_cons, ← trimStart]
    cases trimStart text with
    | nil => rfl
    | cons d rest =>
      by_cases opening : d = '{'
      · simp [opening, after?, first?]
      · simp [opening, Ne.symm opening, after?]
  · simp [after?, closing, Ne.symm closing]

theorem bodyBrace?_eq_first? {text : Text} (single : '\n' ∉ text) (offset : Nat) :
    bodyBrace? offset text =
      (first? bodyPattern text).map fun pieces => offset + byteLength pieces.flatten - 1 := by
  induction text generalizing offset with
  | nil => rfl
  | cons c text ih =>
    obtain ⟨here, later⟩ := not_or.mp (mt List.mem_cons.mpr single)
    have allowed : decide (c ≠ '\n') = true := by simp [Ne.symm here]
    rw [bodyBrace?, bodyPattern, first?_least_cons, first?_closing, if_pos allowed, ← bodyPattern]
    split
    · rename_i found
      have size : ('{' : Char).utf8Size = 1 := by decide
      simp only [Option.map_some, Option.some_or, found.1, List.flatten_cons, List.flatten_nil,
        byteLength_append, byteLength_cons, byteLength_nil, size, Option.some.injEq]
      omega
    · rw [ih later, Option.map_none, Option.none_or, Option.map_map]
      cases matched : first? bodyPattern text with
      | none => rfl
      | some pieces =>
        obtain ⟨taken, _, rest, rfl, -⟩ := first?_cons_iff.mp matched
        simp only [Option.map_some, Function.comp_apply, List.modifyHead_cons, List.flatten_cons,
          byteLength_append, byteLength_cons, Option.some.injEq]
        omega

end Text

namespace LoopOpening

theorem first?_headerPattern (opening : LoopOpening) (condition : Text) :
    Pattern.first? Text.headerPattern (Text.trimStart (opening.text ++ '(' :: condition)) =
      (Pattern.first? Text.bodyPattern condition).map
        fun pieces => Keyword.loop.spelling :: opening.gap :: ['('] :: pieces := by
  have visible : Text.isSpace '(' = false := by decide
  have taken := Text.takeWhile_append_cons visible opening.gap_isSpace condition
  have paren : Text.after? ['('] ('(' :: condition) = some condition :=
    Text.after?_append ['('] condition
  rw [trimStart_text_append, Text.headerPattern, Pattern.first?_word_cons, Text.after?_append,
    Option.bind_some, Pattern.first?_most_word visible, ← Text.trimStart, trimStart_gap_append, taken,
    Pattern.first?_word_cons, paren, Option.bind_some, Option.map_map, Option.map_map]
  rfl

theorem exists_of_first? {line : Text} {pieces : List Text}
    (matched : Pattern.first? Text.headerPattern (Text.trimStart line) = some pieces) :
    ∃ (opening : LoopOpening) (condition : Text), line = opening.text ++ '(' :: condition := by
  obtain ⟨indent, indented, indent_isSpace⟩ := Text.exists_eq_append_trimStart line
  obtain ⟨word, header, later, -, start, rfl, matched, -⟩ := Pattern.first?_cons_iff.mp matched
  obtain ⟨gap, rest, later, -, rfl, gap_isSpace, matched, -⟩ := Pattern.first?_cons_iff.mp matched
  obtain ⟨paren, condition, later, -, rfl, rfl, -, -⟩ := Pattern.first?_cons_iff.mp matched
  refine ⟨⟨indent, gap, indent_isSpace, gap_isSpace⟩, condition, ?_⟩
  rw [indented, start]
  simp [text]

end LoopOpening

namespace Text

open Pattern

theorem headerBrace?_eq_matchedBrace? {line : Text} (single : '\n' ∉ line) :
    headerBrace? line = matchedBrace? line := by
  by_cases opens : ∃ (opening : LoopOpening) (condition : Text), line = opening.text ++ '(' :: condition
  · obtain ⟨opening, condition, rfl⟩ := opens
    have inside : '\n' ∉ condition := fun newline => single (by simp [newline])
    rw [opening.headerBrace?_eq, bodyBrace?_eq_first? inside, matchedBrace?,
      opening.first?_headerPattern, Option.map_map, opening.trimStart_text_append]
    refine Option.map_congr fun pieces _ => ?_
    have size : ('(' : Char).utf8Size = 1 := by decide
    simp only [Function.comp_apply, LoopOpening.text, List.flatten_cons, byteLength_append,
      byteLength_cons, byteLength_nil, size]
    omega
  · have unmatched : first? headerPattern (trimStart line) = none := by
      rw [Option.eq_none_iff_forall_not_mem]
      exact fun pieces matched => opens (LoopOpening.exists_of_first? matched)
    rw [matchedBrace?, unmatched, Option.map_none, Option.eq_none_iff_forall_not_mem]
    exact fun place found => opens (LoopOpening.exists_of_headerBrace? found)

/-! ### The offset of the brace -/

/-- A brace stands at `place`, and the last visible character before it is a closing parenthesis
somewhere after `paren`. -/
def BraceAfter (text : Text) (paren place : Nat) : Prop :=
  ∃ before rest head, text = before ++ '{' :: rest ∧ byteLength before = place ∧
    trimEnd before = head ++ [')'] ∧ paren < byteLength head

theorem braceAfter_iff {front condition : Text} {place : Nat} :
    BraceAfter (front ++ '(' :: condition) (byteLength front) place ↔
      ClosedBefore (byteLength front + 1) condition place := by
  have size : byteLength (front ++ ['(']) = byteLength front + 1 := by
    rw [byteLength_append]
    rfl
  rw [← List.singleton_append, ← List.append_assoc, ← size]
  constructor
  · rintro ⟨before, rest, head, split, rfl, trimmed, after⟩
    obtain ⟨space, ended, spaces⟩ := exists_eq_trimEnd_append before
    rw [trimmed] at ended
    subst ended
    -- The closing parenthesis comes after the opening one, so the condition starts before it.
    have opened : front ++ ['('] <+: head :=
      isPrefix_of_byteLength_le ⟨condition, rfl⟩
        ⟨')' :: space ++ '{' :: rest, by simp [split]⟩ (by omega)
    obtain ⟨inside, rfl⟩ := opened
    refine ⟨inside, space, rest, ?_, spaces, ?_⟩
    · simpa using split
    · simp [Nat.add_assoc]
  · rintro ⟨inside, space, rest, rfl, spaces, rfl⟩
    refine ⟨front ++ ['('] ++ inside ++ ')' :: space, rest, front ++ ['('] ++ inside, by simp, ?_,
      trimEnd_append_cons (by decide) _ spaces, ?_⟩
    · simp [Nat.add_assoc]
    · rw [byteLength_append]
      omega

theorem headerBrace?_eq_some_iff {opening : LoopOpening} {condition : Text} {place : Nat} :
    headerBrace? (opening.text ++ '(' :: condition) = some place ↔
      IsLeast {place | BraceAfter (opening.text ++ '(' :: condition) (byteLength opening.text) place}
        place := by
  rw [opening.headerBrace?_eq, bodyBrace?_eq_some_iff]
  simp only [braceAfter_iff]

/-! ### The brace in the tracking of blocks -/

/-- Keywords have no brace in them, so a line can be cut at one. -/
theorem scanBlocks_append_brace (header : Option Nat) (offset : Nat) (blocks : List Block)
    (front body : Text) :
    scanBlocks header offset blocks (front ++ '{' :: body) =
      (scanBlocks header offset blocks front).bind fun opened =>
        scanBlocks header (offset + byteLength front + 1)
          (blocksAfter opened (header = some (offset + byteLength front)) '{') body := by
  induction front generalizing offset blocks with
  | nil =>
    have nothing : ¬ (startsLoopControl ('{' :: body) ∧ Block.loop ∉ blocks) :=
      fun starts => not_startsLoopControl_brace body starts.1
    exact if_neg nothing
  | cons c front ih =>
    have same := startsLoopControl_append_brace_iff (c :: front) body
    rw [List.cons_append] at same ⊢
    rw [scanBlocks, scanBlocks]
    by_cases refused : startsLoopControl (c :: front) ∧ Block.loop ∉ blocks
    · rw [if_pos refused, if_pos ⟨same.mpr refused.1, refused.2⟩]
      rfl
    · rw [if_neg refused, if_neg (by rwa [same]), ih, byteLength_cons, ← Nat.add_assoc]

theorem scanBlocks_of_missed {place offset : Nat} {text : Text}
    (missed : offset + byteLength text ≤ place ∨ place < offset) (blocks : List Block) :
    scanBlocks (some place) offset blocks text = scanBlocks none offset blocks text := by
  induction text generalizing offset blocks with
  | nil => rfl
  | cons c text ih =>
    have size := Char.utf8Size_pos c
    rw [byteLength_cons] at missed
    have apart : place ≠ offset := by omega
    have other : decide (some place = some offset) = decide (none = some offset) := by simp [apart]
    rw [scanBlocks, scanBlocks, other, ih (by omega)]

/-- The tracking opens a loop at the brace of a header, and other blocks before and after it. -/
theorem trackBlocks_of_headerBrace? {front body : Text}
    (found : headerBrace? (front ++ '{' :: body) = some (byteLength front)) (blocks : List Block) :
    trackBlocks blocks (front ++ '{' :: body) =
      (scanBlocks none 0 blocks front).bind fun opened =>
        scanBlocks none (byteLength front + 1) (.loop :: opened) body := by
  rw [trackBlocks, found, scanBlocks_append_brace, scanBlocks_of_missed (by omega)]
  simp only [Nat.zero_add, scanBlocks_of_missed (.inr (Nat.lt_succ_self _)), blocksAfter]
  rfl

/-- The brace that opens a loop's body, on every line: it is found by its offset, the tracking of
blocks meets it there, and a match of the pattern ends with it. -/
theorem header_brace_least (line : Text) :
    (∀ place, headerBrace? line = some place ↔
      ∃ (opening : LoopOpening) (condition : Text), line = opening.text ++ '(' :: condition ∧
        IsLeast {place | BraceAfter line (byteLength opening.text) place} place) ∧
    (∀ place, headerBrace? line = some place →
      ∃ front body, line = front ++ '{' :: body ∧ byteLength front = place ∧
        ∀ blocks, trackBlocks blocks line =
          (scanBlocks none 0 blocks front).bind fun opened =>
            scanBlocks none (place + 1) (.loop :: opened) body) ∧
    ('\n' ∉ line → headerBrace? line = matchedBrace? line) := by
  refine ⟨fun place => ⟨?found, ?least⟩, ?met, headerBrace?_eq_matchedBrace?⟩
  case found =>
    intro found
    obtain ⟨opening, condition, rfl⟩ := LoopOpening.exists_of_headerBrace? found
    exact ⟨opening, condition, rfl, headerBrace?_eq_some_iff.mp found⟩
  case least =>
    rintro ⟨opening, condition, rfl, least⟩
    exact headerBrace?_eq_some_iff.mpr least
  case met =>
    intro place found
    obtain ⟨header, body, rfl, rfl⟩ := exists_loopHeader_of_headerBrace? found
    exact ⟨header.text, body, rfl, rfl, trackBlocks_of_headerBrace? found⟩

/-- A header between other braces and parentheses, with white space of one, two and three bytes. -/
def crowdedHeader : Text :=
  "\u3000यावत्\u00A0(\x7b(a) b))\u2003 \x7b विराम; \x7d (c) \x7b".toList

theorem crowdedHeader_brace_least :
    headerBrace? crowdedHeader = some 33 ∧ '\n' ∉ crowdedHeader ∧
    (∃ (opening : LoopOpening) (condition : Text),
      crowdedHeader = opening.text ++ '(' :: condition ∧
        IsLeast {place | BraceAfter crowdedHeader (byteLength opening.text) place} 33) ∧
    (∃ front body, crowdedHeader = front ++ '{' :: body ∧ byteLength front = 33 ∧
      ∀ blocks, trackBlocks blocks crowdedHeader =
        (scanBlocks none 0 blocks front).bind fun opened =>
          scanBlocks none 34 (.loop :: opened) body) ∧
    matchedBrace? crowdedHeader = some 33 := by
  have found : headerBrace? crowdedHeader = some 33 := by decide
  have single : '\n' ∉ crowdedHeader := by decide
  obtain ⟨least, met, matched⟩ := header_brace_least crowdedHeader
  exact ⟨found, single, (least 33).mp found, met 33 found, (matched single).symm.trans found⟩

end Text

end Lipi
