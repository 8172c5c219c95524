import Mathlib.Data.List.Chain
import Mathlib.Data.List.Forall2
import Lipi.Proofs.Text.Occurrence
import Lipi.Proofs.Text.Utf8
import Lipi.Proofs.Token.Runs

/-!
# Segmentation of a text into tokens

A token covers a range of bytes. `Segmentation` says what ranges have to satisfy in order to cut a
text into symbols and longest runs of word characters, and which of the runs are keywords, without
going through the text. Every text has one segmentation, and its ranges are those of `tokenize`
(`tokenize_segmentation`).
-/

namespace Lipi

namespace Text

/-! ### Longest runs -/

/-- The run stands in the text, and no word character is next to it. -/
structure MaximalRun (text before run after : Text) : Prop where
  split : text = before ++ run ++ after
  isRun : IsRun run
  starts : ∀ c ∈ before.getLast?, isWordChar c = false
  ends : EndsRun after

theorem IsRun.not_endsRun {run : Text} (isRun : IsRun run) (rest : Text) :
    ¬ EndsRun (run ++ rest) := by
  intro border
  obtain ⟨c, run', rfl⟩ := List.exists_cons_of_ne_nil isRun.ne_nil
  have word := isRun.isWordChar c (by simp)
  rw [border c rfl] at word
  cases word

theorem MaximalRun.before_ne_nil {text before run after : Text}
    (maximal : MaximalRun text before run after) (border : EndsRun text) : before ≠ [] := by
  rintro rfl
  rw [maximal.split, List.nil_append] at border
  exact maximal.isRun.not_endsRun after border

/-- A text starts with one run at most that ends in it. -/
theorem IsRun.append_inj {run run' rest rest' : Text} (isRun : IsRun run) (isRun' : IsRun run')
    (border : EndsRun rest) (border' : EndsRun rest') (same : run ++ rest = run' ++ rest') :
    run = run' ∧ rest = rest' := by
  have front : run = run' := by
    rw [← border.takeWhile_append isRun.isWordChar, same,
      border'.takeWhile_append isRun'.isWordChar]
  subst front
  exact ⟨rfl, List.append_cancel_left same⟩

theorem maximalRun_symbol_iff {c : Char} {text before run after : Text}
    (other : isWordChar c = false) :
    MaximalRun (c :: text) before run after ↔
      ∃ before', before = c :: before' ∧ MaximalRun text before' run after := by
  constructor
  · rintro ⟨split, isRun, starts, ends⟩
    cases before with
    | nil =>
      have border := EndsRun.cons other text
      rw [split, List.nil_append] at border
      exact absurd border (isRun.not_endsRun after)
    | cons d before' =>
      obtain ⟨rfl, inner⟩ := List.cons.inj split
      refine ⟨before', rfl, inner, isRun, ?_, ends⟩
      intro d last
      exact starts d (by simp [List.getLast?_cons, Option.mem_def.mp last])
  · rintro ⟨before', rfl, split, isRun, starts, ends⟩
    refine ⟨by rw [split]; rfl, isRun, ?_, ends⟩
    intro d last
    rw [List.getLast?_cons, Option.mem_some_iff] at last
    cases inner : before'.getLast? with
    | none =>
      rw [inner] at last
      rw [← last]
      exact other
    | some e =>
      rw [inner] at last
      rw [← last]
      exact starts e inner

/-- Past the run at its start, a text has the longest runs of its rest. -/
theorem maximalRun_run_iff {first rest before run after : Text} (isFirst : IsRun first)
    (border : EndsRun rest) :
    MaximalRun (first ++ rest) before run after ↔
      (before = [] ∧ run = first ∧ after = rest) ∨
        ∃ before', before = first ++ before' ∧ MaximalRun rest before' run after := by
  constructor
  · rintro ⟨split, isRun, starts, ends⟩
    rw [List.append_assoc] at split
    rcases List.append_eq_append_iff.mp split with ⟨inner, rfl, rest_eq⟩ | ⟨inner, rfl, rest_eq⟩
    · -- The first run comes before the other one.
      refine .inr ⟨inner, rfl, by rw [rest_eq, List.append_assoc], isRun, ?_, ends⟩
      intro c last
      exact starts c (by simp [List.getLast?_append, Option.mem_def.mp last])
    · -- The other run starts inside the first one, which is only possible at its start.
      have front : before = [] := by
        by_contra someChar
        have last := List.getLast?_eq_some_getLast someChar
        have word := isFirst.isWordChar _ (List.mem_append_left inner (List.getLast_mem someChar))
        rw [starts _ last] at word
        cases word
      subst front
      rw [List.nil_append] at isFirst
      obtain ⟨rfl, rfl⟩ := isRun.append_inj isFirst ends border rest_eq
      exact .inl ⟨rfl, rfl, rfl⟩
  · rintro (⟨rfl, rfl, rfl⟩ | ⟨before', rfl, maximal⟩)
    · exact ⟨by simp, isFirst, by simp, border⟩
    · have someChar := maximal.before_ne_nil border
      obtain ⟨split, isRun, starts, ends⟩ := maximal
      refine ⟨by rw [split]; simp, isRun, ?_, ends⟩
      intro c last
      rw [List.getLast?_append, List.getLast?_eq_some_getLast someChar, Option.some_or] at last
      exact starts c (by rw [List.getLast?_eq_some_getLast someChar]; exact last)

end Text

namespace Token

open Text

/-! ### The kind of a run -/

/-- The first bytes of characters beyond ASCII in front of which a keyword ends. -/
def keywordLeads : List UInt8 := [0xEE, 0xF1, 0xF2, 0xF4]

/-- A keyword may end in front of the text: the text is empty, or its first character is ASCII or
has one of four first bytes. -/
def KeywordEnds (after : Text) : Prop :=
  ∀ c ∈ after.head?, c.toNat < 0x80 ∨ ∃ byte ∈ keywordLeads, (encode [c]).head? = some byte

theorem head?_encode_eq_some_iff {c : Char} {byte : UInt8} :
    (encode [c]).head? = some byte ↔ leadByte c = byte.toNat := by
  rw [head?_encode, Option.some.injEq, ← UInt8.toNat_inj, UInt8.toNat_ofNat_of_lt' (leadByte_lt c)]

theorem keywordEnds_iff {after : Text} : KeywordEnds after ↔ endsKeyword after.head? := by
  cases after with
  | nil => simp [KeywordEnds, endsKeyword]
  | cons c after =>
    simp only [KeywordEnds, endsKeyword, head?_encode_eq_some_iff, keywordLeads]
    simp

theorem runKind_eq_keyword_iff {run after : Text} {keyword : Keyword} :
    runKind run after = .keyword keyword ↔ run = keyword.spelling ∧ KeywordEnds after := by
  constructor
  · intro kind
    refine ⟨text_of_runKind kind, keywordEnds_iff.mpr ?_⟩
    unfold runKind at kind
    split at kind
    · split at kind
      · assumption
      · cases kind
    · cases kind
  · rintro ⟨rfl, ends⟩
    exact runKind_spelling keyword (keywordEnds_iff.mp ends)

theorem runKind_ne_symbol (run after : Text) : runKind run after ≠ .symbol := by
  unfold runKind
  split
  · split <;> simp
  · simp

theorem eq_runKind {kind : TokenKind} {run after : Text} (isRun : kind ≠ .symbol)
    (rule : ∀ keyword, kind = .keyword keyword ↔ run = keyword.spelling ∧ KeywordEnds after) :
    kind = runKind run after := by
  cases kind with
  | keyword keyword => exact (runKind_eq_keyword_iff.mpr ((rule keyword).mp rfl)).symm
  | word =>
    cases other : runKind run after with
    | keyword keyword =>
      have spelled := runKind_eq_keyword_iff.mp other
      cases (rule keyword).mpr spelled
    | word => rfl
    | symbol => exact absurd other (runKind_ne_symbol run after)
  | symbol => exact absurd rfl isRun

/-! ### Places of tokens -/

theorem standsIn_of_first {text rest before after : Text} {first token : Token}
    (tokens : tokenize text = first :: tokenize rest) (stands : token.StandsIn text before after) :
    (token = first ∧ before = [] ∧ after = rest) ∨
      ∃ before', before = first.text ++ before' ∧ token.StandsIn rest before' after := by
  obtain ⟨earlier, later, split, rfl, rfl⟩ := stands
  rw [tokens] at split
  cases earlier with
  | nil =>
    obtain ⟨rfl, rfl⟩ := List.cons.inj split
    exact .inl ⟨rfl, rfl, flatMap_text_tokenize rest⟩
  | cons other earlier =>
    obtain ⟨rfl, inner⟩ := List.cons.inj split
    exact .inr ⟨earlier.flatMap Token.text, rfl, earlier, later, inner, rfl, rfl⟩

theorem StandsIn.symbol_or_maximalRun {token : Token} {text before after : Text}
    (stands : token.StandsIn text before after) :
    (token.kind = .symbol ∧ ∃ c, token.text = [c] ∧ isWordChar c = false) ∨
      (token.kind = runKind token.text after ∧ MaximalRun text before token.text after) := by
  induction text using runs_induction generalizing before with
  | nil =>
    obtain ⟨earlier, later, tokens, -⟩ := stands
    simp at tokens
  | symbol c text other ih =>
    rcases standsIn_of_first (tokenize_symbol other text) stands with
      ⟨rfl, rfl, rfl⟩ | ⟨before', rfl, inner⟩
    · exact .inl ⟨rfl, c, rfl, other⟩
    · refine (ih inner).imp_right fun ⟨kind, maximal⟩ => ⟨kind, ?_⟩
      exact (maximalRun_symbol_iff other).mpr ⟨before', rfl, maximal⟩
  | run run rest isRun border ih =>
    rcases standsIn_of_first (tokenize_run isRun border) stands with
      ⟨rfl, rfl, rfl⟩ | ⟨before', rfl, inner⟩
    · exact .inr ⟨rfl, (maximalRun_run_iff isRun border).mpr (.inl ⟨rfl, rfl, rfl⟩)⟩
    · refine (ih inner).imp_right fun ⟨kind, maximal⟩ => ⟨kind, ?_⟩
      exact (maximalRun_run_iff isRun border).mpr (.inr ⟨before', rfl, maximal⟩)

theorem StandsIn.maximalRun_of_keyword {token : Token} {text before after : Text} {keyword : Keyword}
    (stands : token.StandsIn text before after) (kind : token.kind = .keyword keyword) :
    MaximalRun text before keyword.spelling after ∧ KeywordEnds after := by
  rcases stands.symbol_or_maximalRun with ⟨isSymbol, -⟩ | ⟨isRun, maximal⟩
  · rw [kind] at isSymbol
    cases isSymbol
  · obtain ⟨spelled, ends⟩ := runKind_eq_keyword_iff.mp (isRun.symm.trans kind)
    rw [spelled] at maximal
    exact ⟨maximal, ends⟩

theorem standsIn_of_maximalRun {text before run after : Text}
    (maximal : MaximalRun text before run after) :
    StandsIn ⟨runKind run after, run⟩ text before after := by
  rw [maximal.split]
  exact standsIn_run maximal.isRun maximal.ends before maximal.starts

theorem exists_standsIn {token : Token} {text : Text} (member : token ∈ tokenize text) :
    ∃ before after, token.StandsIn text before after := by
  obtain ⟨earlier, later, tokens⟩ := List.append_of_mem member
  exact ⟨_, _, earlier, later, tokens, rfl, rfl⟩

theorem text_ne_nil {token : Token} {text : Text} (member : token ∈ tokenize text) :
    token.text ≠ [] := by
  obtain ⟨before, after, stands⟩ := exists_standsIn member
  rcases stands.symbol_or_maximalRun with ⟨-, c, same, -⟩ | ⟨-, maximal⟩
  · simp [same]
  · exact maximal.isRun.ne_nil

/-! ### Ranges -/

/-- Ranges that are not empty and follow one another from `start` to `stop`. -/
def Contiguous (start : Nat) : List (TokenKind × Nat × Nat) → Nat → Prop
  | [], stop => start = stop
  | (_, first, last) :: ranges, stop => first = start ∧ first < last ∧ Contiguous last ranges stop

/-- The bytes of the text from `start` to `stop` are those of a part of it, so that both offsets
are at the border of a character. -/
structure CutsOut (text : Text) (start stop : Nat) (before slice after : Text) : Prop where
  split : text = before ++ slice ++ after
  start_eq : (encode before).length = start
  stop_eq : (encode (before ++ slice)).length = stop

/-- The part of the text is what a token of the kind has to be. -/
structure Fits (text : Text) (kind : TokenKind) (before slice after : Text) : Prop where
  symbol : kind = .symbol → ∃ c, slice = [c] ∧ isWordChar c = false
  run : kind ≠ .symbol → MaximalRun text before slice after
  keyword : kind ≠ .symbol →
    ∀ keyword, kind = .keyword keyword ↔ slice = keyword.spelling ∧ KeywordEnds after

/-- The ranges cut the text into tokens. -/
structure Segmentation (text : Text) (ranges : List (TokenKind × Nat × Nat)) : Prop where
  contiguous : Contiguous 0 ranges (encode text).length
  fits : ∀ kind start stop, (kind, start, stop) ∈ ranges →
    ∃ before slice after, CutsOut text start stop before slice after ∧
      Fits text kind before slice after

theorem mem_spans_iff {kind : TokenKind} {first start stop : Nat} {tokens : List Token} :
    (kind, start, stop) ∈ spans first tokens ↔
      ∃ earlier token later, tokens = earlier ++ token :: later ∧ token.kind = kind ∧
        first + byteLength (earlier.flatMap Token.text) = start ∧
        start + byteLength token.text = stop := by
  induction tokens generalizing first with
  | nil => simp [spans]
  | cons token tokens ih =>
    simp only [spans, List.mem_cons, Prod.mk.injEq, ih]
    constructor
    · rintro (⟨rfl, rfl, rfl⟩ | ⟨earlier, other, later, rfl, rfl, rfl, rfl⟩)
      · exact ⟨[], token, tokens, rfl, rfl, rfl, rfl⟩
      · exact ⟨token :: earlier, other, later, rfl, rfl, by simp [Nat.add_assoc], rfl⟩
    · rintro ⟨earlier, other, later, split, rfl, rfl, rfl⟩
      cases earlier with
      | nil =>
        obtain ⟨rfl, rfl⟩ := List.cons.inj split
        exact .inl ⟨rfl, rfl, rfl⟩
      | cons next earlier =>
        obtain ⟨rfl, rfl⟩ := List.cons.inj split
        exact .inr ⟨earlier, other, later, rfl, rfl, by simp [Nat.add_assoc], rfl⟩

theorem contiguous_spans {tokens : List Token} (someChar : ∀ token ∈ tokens, token.text ≠ [])
    (start : Nat) :
    Contiguous start (spans start tokens) (start + byteLength (tokens.flatMap Token.text)) := by
  induction tokens generalizing start with
  | nil => rfl
  | cons token tokens ih =>
    have later := ih (fun other member => someChar other (List.mem_cons_of_mem _ member))
      (start + byteLength token.text)
    obtain ⟨c, rest, shape⟩ := List.exists_cons_of_ne_nil (someChar token (by simp))
    have size : 0 < byteLength token.text := by
      rw [shape, byteLength_cons]
      have positive := c.utf8Size_pos
      omega
    refine ⟨rfl, by omega, ?_⟩
    rw [List.flatMap_cons, byteLength_append, ← Nat.add_assoc]
    exact later

theorem segmentation_spans (text : Text) : Segmentation text (spans 0 (tokenize text)) := by
  refine ⟨?_, ?_⟩
  · have someChar : ∀ token ∈ tokenize text, token.text ≠ [] := fun token => text_ne_nil
    have whole := contiguous_spans someChar 0
    rwa [Nat.zero_add, flatMap_text_tokenize, ← length_encode] at whole
  · intro kind start stop member
    obtain ⟨earlier, token, later, tokens, rfl, rfl, rfl⟩ := mem_spans_iff.mp member
    have stands : token.StandsIn text (earlier.flatMap Token.text) (later.flatMap Token.text) :=
      ⟨earlier, later, tokens, rfl, rfl⟩
    refine ⟨_, token.text, _, ⟨stands.split, ?_, ?_⟩, ?_⟩
    · rw [length_encode, Nat.zero_add]
    · rw [length_encode, Nat.zero_add, byteLength_append]
    · rcases stands.symbol_or_maximalRun with ⟨kind, isSymbol⟩ | ⟨kind, maximal⟩
      · exact ⟨fun _ => isSymbol, fun isRun => absurd kind isRun, fun isRun => absurd kind isRun⟩
      · refine ⟨fun isSymbol => ?_, fun _ => maximal, fun _ keyword => ?_⟩
        · exact absurd (kind.symm.trans isSymbol) (runKind_ne_symbol _ _)
        · rw [kind, runKind_eq_keyword_iff]

/-- Ranges that cut what is left of a text into tokens are those of its tokens. -/
theorem eq_spans_of_fits {text front back : Text} {ranges : List (TokenKind × Nat × Nat)}
    (split : text = front ++ back)
    (contiguous : Contiguous (byteLength front) ranges (byteLength text))
    (fits : ∀ kind start stop, (kind, start, stop) ∈ ranges →
      ∃ before slice after, CutsOut text start stop before slice after ∧
        Fits text kind before slice after) :
    ranges = spans (byteLength front) (tokenize back) := by
  induction ranges generalizing front back with
  | nil =>
    have size : byteLength front = byteLength text := contiguous
    have whole := eq_of_isPrefix_of_byteLength ⟨back, split.symm⟩ List.prefix_rfl size
    rw [split, List.self_eq_append_right] at whole
    rw [whole, tokenize_nil]
    rfl
  | cons range ranges ih =>
    obtain ⟨kind, start, stop⟩ := range
    obtain ⟨rfl, -, later⟩ := contiguous
    obtain ⟨before, slice, after, ⟨whole, startSize, stopSize⟩, here⟩ :=
      fits kind (byteLength front) stop (by simp)
    rw [length_encode] at startSize stopSize
    -- The range starts where the part before it ends.
    have start : before <+: text := ⟨slice ++ after, by rw [whole, List.append_assoc]⟩
    have same : before = front :=
      eq_of_isPrefix_of_byteLength start ⟨back, split.symm⟩ startSize
    subst same
    subst stopSize
    have rest : back = slice ++ after := by
      rw [split, List.append_assoc] at whole
      exact List.append_cancel_left whole
    have others := ih whole later fun kind start stop member =>
      fits kind start stop (List.mem_cons_of_mem _ member)
    rw [rest, others, byteLength_append]
    by_cases isSymbol : kind = .symbol
    · obtain ⟨c, rfl, other⟩ := here.symbol isSymbol
      rw [List.singleton_append, tokenize_symbol other, isSymbol]
      rfl
    · have maximal := here.run isSymbol
      rw [tokenize_run maximal.isRun maximal.ends, ← eq_runKind isSymbol (here.keyword isSymbol)]
      rfl

theorem isChain_spans (text : Text) (start : Nat) :
    (spans start (tokenize text)).IsChain fun range next =>
      range.1 = .symbol ∨ next.1 = .symbol := by
  induction text using runs_induction generalizing start with
  | nil => simp [spans]
  | symbol c text other ih =>
    rw [tokenize_symbol other, spans, List.isChain_cons]
    exact ⟨fun next first => .inl rfl, ih _⟩
  | run run rest isRun border ih =>
    rw [tokenize_run isRun border, spans, List.isChain_cons]
    refine ⟨?_, ih _⟩
    intro next first
    cases rest with
    | nil => simp [spans] at first
    | cons c rest =>
      rw [tokenize_symbol (border c rfl), spans] at first
      cases first
      exact .inr rfl

theorem forall₂_cutsOut_spans (front : Text) (tokens : List Token) {text : Text}
    (split : text = front ++ tokens.flatMap Token.text) :
    List.Forall₂ (fun range slice =>
      ∃ before after, CutsOut text range.2.1 range.2.2 before slice after)
      (spans (byteLength front) tokens) (tokens.map Token.text) := by
  induction tokens generalizing front with
  | nil => exact .nil
  | cons token tokens ih =>
    rw [List.flatMap_cons, ← List.append_assoc] at split
    have later := ih (front ++ token.text) split
    rw [byteLength_append] at later
    refine .cons ⟨front, tokens.flatMap Token.text, split, length_encode front, ?_⟩ later
    rw [length_encode, byteLength_append]

/-- The ranges of the tokens are the one segmentation of a text. No two runs are next to each other
in it, and its parts together are the text. -/
theorem tokenize_segmentation (text : Text) :
    (∀ ranges, Segmentation text ranges ↔ ranges = spans 0 (tokenize text)) ∧
    ((spans 0 (tokenize text)).IsChain fun range next => range.1 = .symbol ∨ next.1 = .symbol) ∧
    ∃ slices : List Text, slices.flatten = text ∧
      List.Forall₂ (fun range slice =>
        ∃ before after, CutsOut text range.2.1 range.2.2 before slice after)
        (spans 0 (tokenize text)) slices := by
  refine ⟨fun ranges => ⟨?unique, ?segments⟩, isChain_spans text 0,
    (tokenize text).map Token.text, ?_, ?_⟩
  case unique =>
    rintro ⟨contiguous, fits⟩
    rw [length_encode] at contiguous
    exact eq_spans_of_fits (List.nil_append text).symm contiguous fits
  case segments =>
    rintro rfl
    exact segmentation_spans text
  · rw [← List.flatMap_def]
    exact flatMap_text_tokenize text
  · exact forall₂_cutsOut_spans [] (tokenize text) (flatMap_text_tokenize text).symm

end Token

end Lipi
