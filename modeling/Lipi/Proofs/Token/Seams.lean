import Lipi.Proofs.Token.Rewriting
import Lipi.Proofs.Token.Segmentation

/-!
# Texts cut in two

The tokens of a text are those of its two parts if no run of word characters crosses the cut and the
back leaves the last run of the front what it is alone (`Divides`), and not otherwise
(`spans_append_iff`). A cut after a symbol or before an ASCII symbol is of this kind, whatever the
texts are (`tokens_split_at_seam`).
-/

namespace Lipi.Token

open Text

/-- The back does not go on with the run that ends the front, nor tell its kind. -/
def Divides (front back : Text) : Prop :=
  ∀ before run, MaximalRun front before run [] → EndsRun back ∧ runKind run back = runKind run []

/-! ### The last run -/

theorem symbol_or_lastRun (text : Text) :
    (∀ c ∈ text.getLast?, isWordChar c = false) ∨ ∃ before run, MaximalRun text before run [] := by
  induction text using runs_induction with
  | nil => exact .inl (by simp)
  | symbol c text other ih =>
    rcases ih with ends | ⟨before, run, maximal⟩
    · left
      intro d last
      cases inner : text.getLast? with
      | none => simp_all [List.getLast?_cons]
      | some e => simp_all [List.getLast?_cons]
    · exact .inr ⟨c :: before, run, (maximalRun_symbol_iff other).mpr ⟨before, rfl, maximal⟩⟩
  | run run rest isRun border ih =>
    cases rest with
    | nil =>
      exact .inr ⟨[], run, (maximalRun_run_iff isRun border).mpr (.inl ⟨rfl, rfl, rfl⟩)⟩
    | cons c rest =>
      rcases ih with ends | ⟨before, last, maximal⟩
      · exact .inl fun d last => ends d (by simpa [List.getLast?_append] using last)
      · exact .inr ⟨run ++ before, last,
          (maximalRun_run_iff isRun border).mpr (.inr ⟨before, rfl, maximal⟩)⟩

/-- A text that ends in a run has the tokens before it and the run. -/
theorem tokenize_lastRun {front before run : Text} (maximal : MaximalRun front before run []) :
    tokenize front = tokenize before ++ [⟨runKind run [], run⟩] := by
  have alone := tokenize_run maximal.isRun maximal.ends
  rw [tokenize_nil, List.append_nil] at alone
  rw [maximal.split, List.append_nil, tokenize_append (.inl maximal.starts), alone]

theorem tokenize_append_iff {front back : Text} :
    tokenize (front ++ back) = tokenize front ++ tokenize back ↔ Divides front back := by
  constructor
  · intro split before run maximal
    rw [tokenize_lastRun maximal, maximal.split, List.append_nil, List.append_assoc,
      tokenize_append (.inl maximal.starts), List.append_assoc] at split
    -- The run goes on with the word characters at the start of the back.
    have border : EndsRun (back.dropWhile isWordChar) := by
      intro c first
      have stop := List.head?_dropWhile_not isWordChar back
      rw [Option.mem_def.mp first] at stop
      simpa using stop
    have longer : IsRun (run ++ back.takeWhile isWordChar) := by
      refine ⟨by simp [maximal.isRun.ne_nil], fun c member => ?_⟩
      rcases List.mem_append.mp member with inner | inner
      · exact maximal.isRun.isWordChar c inner
      · exact List.all_eq_true.mp List.all_takeWhile c inner
    have tokens := tokenize_run longer border
    rw [List.append_assoc, List.takeWhile_append_dropWhile, List.append_cancel_left split] at tokens
    obtain ⟨first, -⟩ := List.cons.inj tokens
    obtain ⟨kind, same⟩ := Token.mk.inj first
    have empty : back.takeWhile isWordChar = [] := by simpa using same
    have whole : back.dropWhile isWordChar = back := by
      simpa [empty] using List.takeWhile_append_dropWhile (p := isWordChar) (l := back)
    rw [whole] at border kind
    rw [empty, List.append_nil] at kind
    exact ⟨border, kind.symm⟩
  · intro divides
    rcases symbol_or_lastRun front with ends | ⟨before, run, maximal⟩
    · exact tokenize_append (.inl ends)
    · obtain ⟨border, kind⟩ := divides before run maximal
      rw [tokenize_lastRun maximal, maximal.split, List.append_nil, List.append_assoc,
        tokenize_append (.inl maximal.starts), tokenize_run maximal.isRun border, kind]
      simp

/-! ### Ranges -/

/-- A range moved by a number of bytes. -/
def shift (bytes : Nat) (range : TokenKind × Nat × Nat) : TokenKind × Nat × Nat :=
  (range.1, bytes + range.2.1, bytes + range.2.2)

theorem spans_append (start : Nat) (front back : List Token) :
    spans start (front ++ back) =
      spans start front ++ spans (start + byteLength (front.flatMap Token.text)) back := by
  induction front generalizing start with
  | nil => rfl
  | cons token front ih => simp [spans, ih, Nat.add_assoc]

theorem map_shift_spans (bytes start : Nat) (tokens : List Token) :
    (spans start tokens).map (shift bytes) = spans (bytes + start) tokens := by
  induction tokens generalizing start with
  | nil => rfl
  | cons token tokens ih =>
    rw [spans, spans, List.map_cons, ih, shift, Nat.add_assoc]

/-- The ranges of a text's tokens tell the tokens. -/
theorem eq_of_spans_eq {start : Nat} {tokens others : List Token}
    (texts : tokens.flatMap Token.text = others.flatMap Token.text)
    (ranges : spans start tokens = spans start others) : tokens = others := by
  induction tokens generalizing start others with
  | nil =>
    cases others with
    | nil => rfl
    | cons other others => cases ranges
  | cons token tokens ih =>
    cases others with
    | nil => cases ranges
    | cons other others =>
      simp only [spans, List.cons.injEq, Prod.mk.injEq, true_and] at ranges
      obtain ⟨⟨kind, stop⟩, later⟩ := ranges
      rw [List.flatMap_cons, List.flatMap_cons] at texts
      have size : byteLength token.text = byteLength other.text := Nat.add_left_cancel stop
      have text : token.text = other.text :=
        eq_of_isPrefix_of_byteLength ⟨_, texts⟩ (List.prefix_append _ _) size
      rw [text] at texts
      rw [stop] at later
      have here : token = other := by
        cases token
        cases other
        simp_all
      rw [here, ih (List.append_cancel_left texts) later]

/-- The ranges of two parts are those of the whole, in the one kind of cut and in no other. -/
theorem spans_append_iff {front back : Text} :
    spans 0 (tokenize (front ++ back)) =
        spans 0 (tokenize front) ++ (spans 0 (tokenize back)).map (shift (byteLength front)) ↔
      Divides front back := by
  have joined : spans 0 (tokenize front) ++ (spans 0 (tokenize back)).map (shift (byteLength front)) =
      spans 0 (tokenize front ++ tokenize back) := by
    rw [spans_append, flatMap_text_tokenize, map_shift_spans, Nat.zero_add, Nat.add_zero]
  rw [joined, ← tokenize_append_iff]
  constructor
  · apply eq_of_spans_eq
    rw [List.flatMap_append, flatMap_text_tokenize, flatMap_text_tokenize, flatMap_text_tokenize]
  · intro split
    rw [split]

/-- Tokens and rewriting go over the two parts of a text apart at every seam: where the front is
empty or ends in a symbol, or where the back is empty or begins with an ASCII symbol. What the cut
has to satisfy for the tokens alone is `Divides`, and a seam is a place where it is known from two
characters. -/
theorem tokens_split_at_seam (front back : Text) :
    (Seam front back →
      spans 0 (tokenize (front ++ back)) =
        spans 0 (tokenize front) ++ (spans 0 (tokenize back)).map (shift (byteLength front)) ∧
      replaceKeywords (front ++ back) = replaceKeywords front ++ replaceKeywords back) ∧
    (spans 0 (tokenize (front ++ back)) =
        spans 0 (tokenize front) ++ (spans 0 (tokenize back)).map (shift (byteLength front)) ↔
      Divides front back) := by
  refine ⟨fun seam => ⟨?_, replaceKeywords_append seam⟩, spans_append_iff⟩
  exact spans_append_iff.mpr (tokenize_append_iff.mp (tokenize_append seam))

end Lipi.Token
