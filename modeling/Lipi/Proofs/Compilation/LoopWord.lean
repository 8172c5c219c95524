import Lipi.Proofs.Compilation.LoopControl
import Lipi.Proofs.Token.Rewriting

/-!
# The word of a loop header

The check of loop control takes a line for a loop header whatever white space stands between the
loop keyword and its condition. Tokens are told by less: a keyword does not end before white space
beyond ASCII. So the word of a header is rewritten exactly if the character after it is ASCII
(`loop_header_word`).
-/

namespace Lipi

theorem Text.leadByte_lt_of_isSpace {c : Char} (space : isSpace c) (foreign : 0x80 ≤ c.toNat) :
    leadByte c < 0xEE := by
  have small : c.toNat ≤ 0x3000 := by
    simp only [isSpace, Bool.or_eq_true, Bool.and_eq_true, decide_eq_true_eq, beq_iff_eq] at space
    omega
  unfold leadByte
  dsimp only
  split
  · omega
  · split
    · omega
    · split <;> omega

namespace Token

/-- White space beyond ASCII starts with bytes that word characters start with as well. -/
theorem endsKeyword_of_isSpace {c : Char} (space : Text.isSpace c) :
    endsKeyword (some c) = decide (c.toNat < 0x80) := by
  by_cases ascii : c.toNat < 0x80
  · simp [endsKeyword, ascii]
  · have lead := Text.leadByte_lt_of_isSpace space (Nat.le_of_not_lt ascii)
    have other : Text.leadByte c ∉ [0xEE, 0xF1, 0xF2, 0xF4] := by
      intro member
      simp only [List.mem_cons, List.not_mem_nil, or_false] at member
      omega
    simp [endsKeyword, ascii, other]

theorem runKind_spelling_space (keyword : Keyword) {c : Char} (space : Text.isSpace c) (rest : Text) :
    runKind keyword.spelling (c :: rest) =
      if c.toNat < 0x80 then .keyword keyword else .word := by
  have ends := endsKeyword_of_isSpace space
  by_cases ascii : c.toNat < 0x80
  · rw [if_pos ascii]
    exact runKind_spelling keyword (by simp [ends, ascii])
  · simp [runKind, keyword.ofSpelling?_spelling, ends, ascii]

end Token

/-- The line, if it is a loop header, has the loop keyword after its white space, and there it is
rewritten. -/
def LoopWordRewritten (line : Text) : Prop :=
  '\n' ∉ line → ∀ place, Text.headerBrace? line = some place →
    ∃ indent after, line = indent ++ Keyword.loop.spelling ++ after ∧
      (∀ c ∈ indent, Text.isSpace c) ∧ loopToken.StandsIn line indent after ∧
      Text.replaceKeywords line = indent ++ Keyword.loop.host ++ Text.replaceKeywords after

/-- The character after the word of a loop header is a parenthesis or white space. -/
theorem LoopHeader.exists_afterKeyword (header : LoopHeader) :
    ∃ c rest, header.afterKeyword = c :: rest ∧ (c = '(' ∨ Text.isSpace c) := by
  cases gap : header.gap with
  | nil => exact ⟨'(', _, by rw [afterKeyword, gap]; rfl, .inl rfl⟩
  | cons c gap' =>
    exact ⟨c, _, by rw [afterKeyword, gap]; rfl, .inr (header.gap_isSpace c (by simp [gap]))⟩

/-- The first word of a line tells where its indentation ends. -/
theorem Text.indent_eq_of_loop {indent indent' after after' : Text}
    (spaces : ∀ c ∈ indent, isSpace c) (spaces' : ∀ c ∈ indent', isSpace c)
    (same : indent ++ Keyword.loop.spelling ++ after = indent' ++ Keyword.loop.spelling ++ after') :
    indent = indent' ∧ after = after' := by
  rw [List.append_assoc, List.append_assoc] at same
  have tails := congrArg trimStart same
  rw [trimStart_loop spaces, trimStart_loop spaces'] at tails
  rw [tails] at same
  exact ⟨List.append_cancel_right same, List.append_cancel_left tails⟩

theorem Text.isWordChar_of_next {c : Char} (next : c = '(' ∨ isSpace c) : isWordChar c = false := by
  rcases next with rfl | space
  · decide
  · exact isWordChar_of_isSpace space

theorem Token.runKind_loop {c : Char} (next : c = '(' ∨ Text.isSpace c) (rest : Text) :
    runKind Keyword.loop.spelling (c :: rest) = if c.toNat < 0x80 then .keyword .loop else .word := by
  rcases next with rfl | space
  · exact runKind_spelling .loop rfl
  · exact runKind_spelling_space .loop space rest

theorem Text.replaceKeywords_loop {c : Char} (next : c = '(' ∨ isSpace c) (rest : Text) :
    replaceKeywords (Keyword.loop.spelling ++ c :: rest) =
      (if c.toNat < 0x80 then Keyword.loop.host else Keyword.loop.spelling) ++
        replaceKeywords (c :: rest) := by
  have border := EndsRun.cons (isWordChar_of_next next) rest
  rw [replaceKeywords_run (Token.isRun_spelling .loop) border, runHost, Token.runKind_loop next]
  split <;> rfl

/-- The word of a loop header is a keyword, and rewritten, if the character after it is ASCII.
Otherwise it is an ordinary word and stays. -/
theorem loop_header_word {line : Text} {place : Nat} (found : Text.headerBrace? line = some place) :
    ∃ indent c after, line = indent ++ Keyword.loop.spelling ++ c :: after ∧
      (∀ d ∈ indent, Text.isSpace d) ∧ (c = '(' ∨ Text.isSpace c) ∧
      Token.StandsIn ⟨if c.toNat < 0x80 then .keyword .loop else .word, Keyword.loop.spelling⟩ line
        indent (c :: after) ∧
      Text.replaceKeywords line =
        indent ++ (if c.toNat < 0x80 then Keyword.loop.host else Keyword.loop.spelling) ++
          Text.replaceKeywords (c :: after) := by
  obtain ⟨header, rest, whole, -⟩ := Text.exists_loopHeader_of_headerBrace? found
  obtain ⟨c, afterKeyword, shape, next⟩ := header.exists_afterKeyword
  have split : line =
      header.indent ++ Keyword.loop.spelling ++ c :: (afterKeyword ++ '{' :: rest) := by
    rw [whole, LoopHeader.text, shape]
    simp
  have border := Text.EndsRun.cons (Text.isWordChar_of_next next) (afterKeyword ++ '{' :: rest)
  have kind := Token.runKind_loop next (afterKeyword ++ '{' :: rest)
  refine ⟨header.indent, c, afterKeyword ++ '{' :: rest, split, header.indent_isSpace, next, ?_, ?_⟩
  · have starts : ∀ d ∈ header.indent.getLast?, Text.isWordChar d = false := fun d last =>
      Text.isWordChar_of_isSpace (header.indent_isSpace d (List.mem_of_mem_getLast? last))
    have stands := Token.standsIn_run (Token.isRun_spelling .loop) border header.indent starts
    rwa [kind, ← split] at stands
  · rw [split, List.append_assoc, Text.replaceKeywords_blank header.indent_isSpace,
      Text.replaceKeywords_loop next, List.append_assoc]

/-- An indented header with an ideographic space after its word. -/
def ideographicLine : Text :=
  "\tयावत्\u3000(x) \x7b".toList

theorem ideographic_loop_word_kept :
    Text.headerBrace? ideographicLine = some 23 ∧
      ∃ indent c after, ideographicLine = indent ++ Keyword.loop.spelling ++ c :: after ∧
        (∀ d ∈ indent, Text.isSpace d) ∧ 0x80 ≤ c.toNat ∧
        Token.StandsIn ⟨.word, Keyword.loop.spelling⟩ ideographicLine indent (c :: after) ∧
        Text.replaceKeywords ideographicLine =
          indent ++ Keyword.loop.spelling ++ Text.replaceKeywords (c :: after) := by
  have found : Text.headerBrace? ideographicLine = some 23 := by decide
  obtain ⟨indent, c, after, split, spaces, -, stands, rewritten⟩ := loop_header_word found
  have shape : ideographicLine =
      ['\t'] ++ Keyword.loop.spelling ++ '\u3000' :: "(x) \x7b".toList := by
    decide
  obtain ⟨-, next⟩ :=
    Text.indent_eq_of_loop spaces (List.all_eq_true.mp (by decide)) (split.symm.trans shape)
  have foreign : ¬ c.toNat < 0x80 := by
    rw [(List.cons.inj next).1]
    decide
  rw [if_neg foreign] at stands rewritten
  exact ⟨found, indent, c, after, split, spaces, Nat.le_of_not_lt foreign, stands, rewritten⟩

/-- A header with a no-break space after its word is accepted as a loop but not rewritten. -/
theorem no_break_loop_word_kept : ¬ LoopWordRewritten noBreakHeader.breakLine := by
  intro rewritten
  obtain ⟨indent, after, split, spaces, -, replaced⟩ := rewritten (by decide) 21 (by decide)
  obtain ⟨body, shape⟩ : ∃ body, noBreakHeader.breakLine =
      [] ++ Keyword.loop.spelling ++ '\u00A0' :: body := ⟨_, rfl⟩
  obtain ⟨rfl, -⟩ := Text.indent_eq_of_loop spaces (by simp) (split.symm.trans shape)
  rw [shape, List.nil_append, Text.replaceKeywords_loop (.inr (by decide)), if_neg (by decide)]
    at replaced
  -- One side starts with the loop keyword and the other with `while`.
  cases replaced

end Lipi
