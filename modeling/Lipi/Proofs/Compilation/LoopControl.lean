import Mathlib.Data.List.Basic
import Lipi.Proofs.Compilation.Stages
import Lipi.Proofs.Program.Brace
import Lipi.Proofs.Program.OpenBlocks
import Lipi.Proofs.Token.Runs

/-!
# Loop control in compiled programs

In a program that compiles with the tracking of blocks, every break or continue keyword is in a
block that a loop header opens. The header is told by the form of its line. That does not make it a
loop of the compiled program: its parentheses need not be balanced, and with white space beyond
ASCII after it the loop keyword is not rewritten. `InLoopBody` is what would be asked of a loop.
-/

namespace Lipi

namespace Text

/-- The brace after `head` opens a block that has `word` in it. -/
def BlockAround (head before word after : Text) : Prop :=
  ∃ front back rest, before = head ++ '{' :: front ∧ after = back ++ '}' :: rest ∧
    Balanced '{' '}' (front ++ word ++ back)

/-- In a text with balanced braces, a brace that is open at a word is closed after it. -/
theorem blockAround_of_openAfter {head before word after : Text} {depth : Nat}
    (balanced : Balanced '{' '}' (before ++ word ++ after)) (noBrace : Balanced '{' '}' word)
    (opened : OpenAfter head depth before) : BlockAround head before word after := by
  have distinct : '{' ≠ '}' := by decide
  obtain ⟨front, rfl, inside⟩ := opened
  -- At the brace `around` others are open, and all of them are closed at the end.
  have closed := balanced.depthAfter? distinct 0
  rw [List.append_assoc, List.append_assoc, depthAfter?_append] at closed
  obtain ⟨around, -, closed⟩ := Option.bind_eq_some_iff.mp closed
  have frontDepth := depthAfter?_add inside (around + 1)
  rw [Nat.add_zero] at frontDepth
  rw [List.cons_append, depthAfter?_opening, depthAfter?_append, frontDepth, Option.bind_some,
    depthAfter?_append, noBrace.depthAfter? distinct, Option.bind_some] at closed
  obtain ⟨back, rest, rfl, backDepth⟩ := exists_closing_of_depthAfter? around depth closed
  refine ⟨front, back, rest, rfl, rfl, balanced_of_depthAfter? distinct ?_⟩
  rw [List.append_assoc, depthAfter?_append, inside, Option.bind_some, depthAfter?_append,
    noBrace.depthAfter? distinct, Option.bind_some, backDepth]

end Text

def loopToken : Token := ⟨.keyword .loop, Keyword.loop.spelling⟩

/-- The word of the header, after the text `above`, is the loop keyword in the text. -/
def LoopHeader.IsKeyword (header : LoopHeader) (text above : Text) : Prop :=
  ∃ after, loopToken.StandsIn text (above ++ header.indent) after

theorem Text.newline_of_getLast?_endLines {rows : List Text} {c : Char}
    (last : c ∈ (endLines rows).getLast?) : c = '\n' := by
  rcases List.eq_nil_or_concat rows with rfl | ⟨rows, row, rfl⟩
  · cases last
  · simpa [endLines, eq_comm] using last

theorem LoopHeader.isKeyword_of_ascii (header : LoopHeader)
    (ascii : ∀ c ∈ header.gap.head?, c.toNat < 0x80) (rows : List Text) (rest : Text) :
    header.IsKeyword (Text.endLines rows ++ header.text ++ rest) (Text.endLines rows) := by
  have starts : ∀ c ∈ (Text.endLines rows ++ header.indent).getLast?, Text.isWordChar c = false := by
    intro c last
    apply Text.isWordChar_of_isSpace
    rw [List.getLast?_append, Option.mem_def, Option.or_eq_some_iff] at last
    rcases last with inside | ⟨-, above⟩
    · exact header.indent_isSpace c (List.mem_of_mem_getLast? inside)
    · rw [Text.newline_of_getLast?_endLines above]
      rfl
  have ends : ∀ c ∈ (header.afterKeyword ++ rest).head?,
      Text.isWordChar c = false ∧ c.toNat < 0x80 := by
    intro c first
    cases gap : header.gap with
    | nil =>
      simp only [afterKeyword, gap, List.nil_append, List.cons_append, List.head?_cons,
        Option.mem_some_iff] at first
      subst first
      decide
    | cons d gap' =>
      simp only [afterKeyword, gap, List.cons_append, List.head?_cons, Option.mem_some_iff] at first
      subst first
      have space := header.gap_isSpace d (by simp [gap])
      exact ⟨Text.isWordChar_of_isSpace space, ascii d (by simp [gap])⟩
  have stands := Token.standsIn_spelling .loop _ _ starts ends
  exact ⟨_, by simpa [text, loopToken] using stands⟩

/-! ### Keywords in accepted texts -/

theorem Text.exists_loopHeader_around {before after : Text} {keyword : Keyword}
    (braces : checkBraces (before ++ keyword.spelling ++ after) = .ok ())
    (loops : checkLoopControl .blockStack (before ++ keyword.spelling ++ after) = .ok ())
    (control : keyword.isLoopControl) :
    ∃ (rows : List Text) (header : LoopHeader), '\n' ∉ header.text ∧
      LoopBrace (before ++ keyword.spelling ++ after) (endLines rows ++ header.text) ∧
      BlockAround (endLines rows ++ header.text) before keyword.spelling after := by
  rw [List.append_assoc] at loops
  have starts : startsLoopControl (keyword.spelling ++ after) :=
    startsLoopControl_iff_spelling.mpr ⟨keyword, control, List.prefix_append _ _⟩
  obtain ⟨head, depth, isLoop, opened⟩ := exists_loopBrace_of_checkLoopControl loops starts
  obtain ⟨rows, header, rfl, single⟩ := exists_loopHeader_of_loopBrace isLoop
  rw [← List.append_assoc] at isLoop
  exact ⟨rows, header, single, isLoop, blockAround_of_openAfter (checkBraces_eq_ok_iff.mp braces)
    keyword.balanced_spelling opened⟩

/-- Every break and continue of a compiled program comes from a keyword in a block that a loop
header opens at the start of a line, by the first brace of the line that can end a header. The
header's word is rewritten as well if the white space after it starts within ASCII. -/
theorem loop_control_follows_loop_header {source js : Text}
    (compiled : (compile { loopTracking := .blockStack } source).result = .ok js) :
    ∃ plain, (Stage.run Stage.normalization source).result = .ok plain ∧
      js = Text.replaceKeywords plain ∧
      ∀ (token : Token) (keyword : Keyword) (before after : Text),
        token.StandsIn plain before after → token.kind = .keyword keyword →
        keyword.isLoopControl →
        ∃ (rows : List Text) (header : LoopHeader), '\n' ∉ header.text ∧
          Text.LoopBrace plain (Text.endLines rows ++ header.text) ∧
          Text.BlockAround (Text.endLines rows ++ header.text) before token.text after ∧
          ((∀ c ∈ header.gap.head?, c.toNat < 0x80) →
            header.IsKeyword plain (Text.endLines rows)) := by
  obtain ⟨program, found, checks, rfl⟩ := compile_eq_ok_iff.mp compiled
  obtain ⟨-, braces, loops⟩ := Text.validate_eq_ok_iff.mp checks
  refine ⟨Text.normalize program, ?_, rfl, ?_⟩
  · rw [Stage.result_run_normalization, found]
    rfl
  · intro token keyword before after stands kind control
    have word := Token.text_of_keyword stands.mem kind
    have split := stands.split
    rw [word] at split
    rw [split] at braces loops
    obtain ⟨rows, header, single, isLoop, around⟩ :=
      Text.exists_loopHeader_around braces loops control
    refine ⟨rows, header, single, by rwa [split], by rwa [word], fun ascii => ?_⟩
    obtain ⟨front, back, rest, opened, -⟩ := around
    rw [split, opened, List.append_assoc _ _ after, List.append_assoc]
    exact header.isKeyword_of_ascii ascii rows _

/-- The start of a program, up to a place in a branch in a loop. -/
def branchInLoop : Text :=
  "x;\nयावत् (y) \x7b\n यदि (z) \x7b ".toList

theorem break_in_branch_follows_loop_header :
    (∃ js, (compile { loopTracking := .blockStack }
      "x\nयावत् (y) \x7b\n यदि (z) \x7b विराम \x7d\x7d".toList).result = .ok js) ∧
    ∃ (rows : List Text) (header : LoopHeader), '\n' ∉ header.text ∧
      Text.LoopBrace (branchInLoop ++ Keyword.breakLoop.spelling ++ [' ', '}', '}'])
        (Text.endLines rows ++ header.text) ∧
      Text.BlockAround (Text.endLines rows ++ header.text) branchInLoop Keyword.breakLoop.spelling
        [' ', '}', '}'] ∧
      ((∀ c ∈ header.gap.head?, c.toNat < 0x80) →
        header.IsKeyword (branchInLoop ++ Keyword.breakLoop.spelling ++ [' ', '}', '}'])
          (Text.endLines rows)) := by
  have compiled : (compile { loopTracking := .blockStack }
      "x\nयावत् (y) \x7b\n यदि (z) \x7b विराम \x7d\x7d".toList).result =
        .ok "x;\nwhile (y) \x7b\n if (z) \x7b break \x7d\x7d".toList := by decide +kernel
  have normalized : (Stage.run Stage.normalization
      "x\nयावत् (y) \x7b\n यदि (z) \x7b विराम \x7d\x7d".toList).result =
        .ok (branchInLoop ++ Keyword.breakLoop.spelling ++ [' ', '}', '}']) := by decide +kernel
  have stands := Token.standsIn_spelling .breakLoop branchInLoop [' ', '}', '}']
    (fun c last => by cases last; decide) (fun c first => by cases first; decide)
  obtain ⟨plain, normal, -, follows⟩ := loop_control_follows_loop_header compiled
  rw [normalized] at normal
  cases normal
  exact ⟨⟨_, compiled⟩, follows _ .breakLoop _ _ stands rfl rfl⟩

/-! ### Loop bodies -/

/-- The word is in the body of a loop: the block around it comes after a condition with balanced
parentheses, and that after the loop keyword. -/
def InLoopBody (text before word after : Text) : Prop :=
  ∃ (above : Text) (header : LoopHeader),
    Text.BlockAround (above ++ header.text) before word after ∧
      Text.Balanced '(' ')' header.condition ∧ header.IsKeyword text above

/-- If the source text has no quotes or escapes and compiles, all its break and continue keywords
are in loop bodies. -/
def LoopControlInBodies (source : Text) : Prop :=
  source.all (['\'', '"', '\x60', '\\'].contains · = false) →
    ∀ js, (compile { loopTracking := .blockStack } source).result = .ok js →
    ∀ plain, (Stage.run Stage.normalization source).result = .ok plain →
    ∀ (token : Token) (keyword : Keyword) (before after : Text),
      token.StandsIn plain before after → token.kind = .keyword keyword → keyword.isLoopControl →
      InLoopBody plain before token.text after

theorem Token.StandsIn.before_eq_nil {token : Token} {text before after : Text}
    (stands : token.StandsIn text before after) (single : token ∉ (tokenize text).tail) :
    before = [] := by
  obtain ⟨earlier, later, split, rfl, -⟩ := stands
  cases earlier with
  | nil => rfl
  | cons other earlier =>
    rw [split] at single
    exact absurd (by simp) single

/-- A loop of one line has its body after the only condition that the line can be read with. -/
theorem not_inLoopBody_of_unbalanced {text front word after : Text} {header : LoopHeader}
    (headerBrace : '{' ∉ header.text) (frontBrace : '{' ∉ front)
    (single : ∀ before after, loopToken.StandsIn text before after → before = [])
    (unbalanced : ¬ Text.Balanced '(' ')' header.condition) :
    ¬ InLoopBody text (header.text ++ '{' :: front) word after := by
  rintro ⟨above, other, ⟨inside, back, rest, opened, -⟩, balanced, later, stands⟩
  -- The other header starts at the same keyword and ends at the same brace.
  obtain ⟨rfl, -⟩ := List.append_eq_nil_iff.mp (single _ _ stands)
  obtain ⟨same, -⟩ := (List.append_cons_inj_of_notMem headerBrace frontBrace).mp opened
  rw [LoopHeader.condition_eq_of_text_eq same] at unbalanced
  exact unbalanced balanced

/-- A line with a break in the body that the header opens. -/
def LoopHeader.breakLine (header : LoopHeader) : Text :=
  header.text ++ '{' :: [' '] ++ Keyword.breakLoop.spelling ++ [';', ' ', '}']

theorem LoopHeader.not_loopControlInBodies {header : LoopHeader} {js : Text}
    (noQuotes : header.breakLine.all (['\'', '"', '\x60', '\\'].contains · = false))
    (compiled : (compile { loopTracking := .blockStack } header.breakLine).result = .ok js)
    (normal : (Stage.run Stage.normalization header.breakLine).result = .ok header.breakLine)
    (single : loopToken ∉ (Token.tokenize header.breakLine).tail) (noBrace : '{' ∉ header.text)
    (unbalanced : Text.depthAfter? '(' ')' 0 header.condition ≠ some 0) :
    ¬ LoopControlInBodies header.breakLine := by
  intro inBodies
  have stands := Token.standsIn_spelling .breakLoop (header.text ++ ['{', ' ']) [';', ' ', '}']
    (fun c last => by rw [List.getLast?_append] at last; cases last; decide)
    (fun c first => by cases first; decide)
  have inside := inBodies noQuotes js compiled _ normal _ .breakLoop _ _
    (by simpa [breakLine] using stands) rfl rfl
  exact not_inLoopBody_of_unbalanced noBrace (by decide)
    (fun _ _ stands => stands.before_eq_nil single)
    (fun balanced => unbalanced (balanced.depthAfter? (by decide) 0)) inside

/-- A header with a parenthesis too many. -/
def unbalancedHeader : LoopHeader :=
  ⟨[], [' '], ['a', ')'], [' '], List.all_eq_true.mp rfl, List.all_eq_true.mp rfl,
    List.all_eq_true.mp rfl⟩

/-- A line with a loop that ends before a branch is taken for a header as a whole. -/
def endedLoopHeader : LoopHeader :=
  ⟨[], [' '], "x) y(); यदि (z".toList, [' '], List.all_eq_true.mp rfl, List.all_eq_true.mp rfl,
    List.all_eq_true.mp rfl⟩

/-- A header with a no-break space after its word. -/
def noBreakHeader : LoopHeader :=
  ⟨[], ['\u00A0'], ['x'], [' '], List.all_eq_true.mp rfl, List.all_eq_true.mp rfl,
    List.all_eq_true.mp rfl⟩

/-- With a parenthesis too many in the condition, in a branch on the line of a loop that has ended,
or with a no-break space after the loop keyword, a keyword passes that is in no loop body. -/
theorem loop_body_not_required :
    ¬ LoopControlInBodies "यावत् (a)) \x7b विराम; \x7d".toList ∧
      ¬ LoopControlInBodies "यावत् (x) y(); यदि (z) \x7b विराम; \x7d".toList ∧
      ¬ LoopControlInBodies "यावत्\u00A0(x) \x7b विराम; \x7d".toList := by
  refine ⟨?unbalanced, ?ended, ?noBreak⟩
  case unbalanced =>
    have line : "यावत् (a)) \x7b विराम; \x7d".toList = unbalancedHeader.breakLine := by decide
    have compiled : (compile { loopTracking := .blockStack } unbalancedHeader.breakLine).result =
        .ok "while (a)) \x7b break; \x7d".toList := by decide +kernel
    rw [line]
    exact LoopHeader.not_loopControlInBodies (by decide) compiled (by decide +kernel)
      (by decide +kernel) (by decide) (by decide)
  case ended =>
    have line : "यावत् (x) y(); यदि (z) \x7b विराम; \x7d".toList = endedLoopHeader.breakLine := by
      decide
    have compiled : (compile { loopTracking := .blockStack } endedLoopHeader.breakLine).result =
        .ok "while (x) y(); if (z) \x7b break; \x7d".toList := by decide +kernel
    rw [line]
    exact LoopHeader.not_loopControlInBodies (by decide) compiled (by decide +kernel)
      (by decide +kernel) (by decide) (by decide)
  case noBreak =>
    intro inBodies
    obtain ⟨above, header, -, -, after, stands⟩ :=
      inBodies (by decide) "यावत्\u00A0(x) \x7b break; \x7d".toList (by decide +kernel)
        noBreakHeader.breakLine (by decide +kernel) _ .breakLoop _ _
        (Token.standsIn_spelling .breakLoop _ _ (fun c last => by cases last; decide)
        (fun c first => by cases first; decide)) rfl rfl
    have absent : loopToken ∉ Token.tokenize noBreakHeader.breakLine := by decide +kernel
    exact absent stands.mem

end Lipi
