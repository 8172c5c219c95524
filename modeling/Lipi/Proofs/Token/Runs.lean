import Lipi.Text.Space
import Lipi.Token

/-!
# Runs of word characters

A text is made of runs of word characters and of single other characters, and statements about its
tokens are proved along these parts (`runs_induction`). Tokens, and the JavaScript for them, can be
found on both sides of a seam apart, as long as no run and no decision about a run crosses the seam
(`tokenize_append`).
-/

namespace Lipi

namespace Text

/-- The text is a run of word characters. -/
structure IsRun (run : Text) : Prop where
  ne_nil : run ≠ []
  isWordChar : ∀ c ∈ run, Text.isWordChar c

theorem IsRun.of_all {run : Text} (someChar : run ≠ []) (words : run.all Text.isWordChar) :
    IsRun run :=
  ⟨someChar, List.all_eq_true.mp words⟩

/-- No run goes on into the text. -/
def EndsRun (text : Text) : Prop :=
  ∀ c ∈ text.head?, isWordChar c = false

theorem EndsRun.cons {c : Char} (other : isWordChar c = false) (text : Text) : EndsRun (c :: text) := by
  intro d member
  simp only [List.head?_cons, Option.mem_some_iff] at member
  rwa [← member]

theorem EndsRun.takeWhile_append {front rest : Text} (border : EndsRun rest)
    (words : ∀ c ∈ front, isWordChar c) : (front ++ rest).takeWhile isWordChar = front := by
  rw [List.takeWhile_append_of_pos words]
  cases rest with
  | nil => simp
  | cons c rest => simp [border c (by simp)]

theorem EndsRun.dropWhile_append {front rest : Text} (border : EndsRun rest)
    (words : ∀ c ∈ front, isWordChar c) : (front ++ rest).dropWhile isWordChar = rest := by
  rw [List.dropWhile_append_of_pos words]
  cases rest with
  | nil => simp
  | cons c rest => simp [border c (by simp)]

def spaceCodes : List Nat :=
  [0x09, 0x0A, 0x0B, 0x0C, 0x0D, 0x20, 0x85, 0xA0, 0x1680, 0x2000, 0x2001, 0x2002, 0x2003, 0x2004,
    0x2005, 0x2006, 0x2007, 0x2008, 0x2009, 0x200A, 0x2028, 0x2029, 0x202F, 0x205F, 0x3000]

theorem toNat_mem_spaceCodes {c : Char} (space : isSpace c) : c.toNat ∈ spaceCodes := by
  simp only [isSpace, Bool.or_eq_true, Bool.and_eq_true, decide_eq_true_eq, beq_iff_eq] at space
  simp only [spaceCodes, List.mem_cons, List.not_mem_nil, or_false]
  omega

theorem isWordChar_of_isSpace {c : Char} (space : isSpace c) : isWordChar c = false := by
  have table : ∀ code ∈ spaceCodes, (if code < 0x80 then inRanges code asciiWordRanges
      else if code < 0x1000 then inRanges code alphabeticWordRanges
      else if code < 0x10000 then inRanges code generalWordRanges
      else inRanges code supplementaryWordRanges) = false := by
    decide +kernel
  exact table c.toNat (toNat_mem_spaceCodes space)

/-- To prove something of every text, prove it along its runs and its other characters. -/
@[elab_as_elim]
theorem runs_induction {motive : Text → Prop} (nil : motive [])
    (symbol : ∀ c text, isWordChar c = false → motive text → motive (c :: text))
    (run : ∀ run rest, IsRun run → EndsRun rest → motive rest → motive (run ++ rest))
    (text : Text) : motive text := by
  fun_induction Token.tokenize text with
  | case1 => exact nil
  | case2 c text word front rest ih =>
    have whole : c :: text = front ++ rest := by simp [front, rest]
    rw [whole]
    refine run front rest ⟨by simp [front], ?_⟩ ?_ ih
    · intro d member
      rcases List.mem_cons.mp member with rfl | member
      · exact word
      · exact List.all_eq_true.mp List.all_takeWhile d member
    · intro d first
      have stop := List.head?_dropWhile_not isWordChar text
      rw [Option.mem_def.mp first] at stop
      exact stop
  | case3 c text other ih => exact symbol c text (by simpa using other) ih

end Text

namespace Token

open Text

/-! ### Tokens -/

@[simp]
theorem tokenize_nil : tokenize [] = [] := by
  rw [tokenize]

theorem tokenize_symbol {c : Char} (other : isWordChar c = false) (text : Text) :
    tokenize (c :: text) = ⟨.symbol, [c]⟩ :: tokenize text := by
  rw [tokenize, if_neg (by simp [other])]

theorem tokenize_run {run rest : Text} (isRun : IsRun run) (border : EndsRun rest) :
    tokenize (run ++ rest) = ⟨runKind run rest, run⟩ :: tokenize rest := by
  obtain ⟨c, run', rfl⟩ := List.exists_cons_of_ne_nil isRun.ne_nil
  have inner : ∀ d ∈ run', isWordChar d := fun d member => isRun.isWordChar d (by simp [member])
  rw [List.cons_append, tokenize, if_pos (isRun.isWordChar c (by simp)),
    border.takeWhile_append inner, border.dropWhile_append inner]

theorem flatMap_text_tokenize (text : Text) : (tokenize text).flatMap Token.text = text := by
  induction text using runs_induction with
  | nil => simp
  | symbol c text other ih => simp [tokenize_symbol other, ih]
  | run run rest isRun border ih => simp [tokenize_run isRun border, ih]

theorem runKind_congr {run rest rest' : Text}
    (same : endsKeyword rest.head? = endsKeyword rest'.head?) : runKind run rest = runKind run rest' := by
  unfold runKind
  rw [same]

/-- No run crosses the seam between two texts, and no run at the seam is told by what follows. -/
def Seam (front back : Text) : Prop :=
  (∀ c ∈ front.getLast?, isWordChar c = false) ∨
    ∀ c ∈ back.head?, isWordChar c = false ∧ c.toNat < 0x80

theorem Seam.cons {c : Char} {front back : Text} (seam : Seam (c :: front) back) :
    Seam front back := by
  rcases seam with ends | starts
  · left
    intro d member
    cases front with
    | nil => simp at member
    | cons e front => exact ends d (by simpa using member)
  · exact Or.inr starts

theorem Seam.append {part front back : Text} (seam : Seam (part ++ front) back) :
    Seam front back := by
  induction part with
  | nil => exact seam
  | cons c part ih => exact ih seam.cons

theorem tokenize_append {front back : Text} (seam : Seam front back) :
    tokenize (front ++ back) = tokenize front ++ tokenize back := by
  induction front using runs_induction with
  | nil => simp
  | symbol c text other ih =>
    rw [List.cons_append, tokenize_symbol other, tokenize_symbol other, ih seam.cons, List.cons_append]
  | run run rest isRun border ih =>
    have later := ih seam.append
    cases rest with
    | nil =>
      have starts : ∀ c ∈ back.head?, isWordChar c = false ∧ c.toNat < 0x80 := by
        rcases seam with ends | starts
        · rw [List.append_nil] at ends
          have last := List.getLast?_eq_some_getLast isRun.ne_nil
          have word := isRun.isWordChar _ (List.getLast_mem isRun.ne_nil)
          rw [ends _ last] at word
          cases word
        · exact starts
      have kind : runKind run back = runKind run [] := by
        apply runKind_congr
        cases back with
        | nil => rfl
        | cons c back => simp [endsKeyword, (starts c (by simp)).2]
      have backEnds : EndsRun back := fun c member => (starts c member).1
      rw [List.append_nil, tokenize_run isRun backEnds, kind]
      have alone := tokenize_run isRun border
      rw [List.append_nil] at alone
      rw [alone]
      simp
    | cons c rest =>
      have border' : EndsRun (c :: rest ++ back) := border
      have kind : runKind run (c :: rest ++ back) = runKind run (c :: rest) := runKind_congr rfl
      rw [List.append_assoc, tokenize_run isRun border', tokenize_run isRun border, later, kind]
      simp

/-! ### Places of tokens -/

/-- The token stands in the text between the texts `before` and `after`. -/
def StandsIn (token : Token) (text before after : Text) : Prop :=
  ∃ earlier later, tokenize text = earlier ++ token :: later ∧
    earlier.flatMap Token.text = before ∧ later.flatMap Token.text = after

theorem StandsIn.split {token : Token} {text before after : Text}
    (stands : token.StandsIn text before after) : text = before ++ token.text ++ after := by
  obtain ⟨earlier, later, tokens, rfl, rfl⟩ := stands
  have whole := flatMap_text_tokenize text
  rw [tokens] at whole
  simpa using whole.symm

theorem StandsIn.mem {token : Token} {text before after : Text}
    (stands : token.StandsIn text before after) : token ∈ tokenize text := by
  obtain ⟨earlier, later, tokens, -⟩ := stands
  simp [tokens]

theorem text_of_runKind {run rest : Text} {keyword : Keyword}
    (kind : runKind run rest = .keyword keyword) : run = keyword.spelling := by
  unfold runKind at kind
  split at kind
  · rename_i found spelled
    split at kind
    · cases kind
      have spelling : keyword.spelling = run := by simpa using List.find?_some spelled
      exact spelling.symm
    · cases kind
  · cases kind

theorem text_of_keyword {token : Token} {text : Text} (member : token ∈ tokenize text)
    {keyword : Keyword} (kind : token.kind = .keyword keyword) : token.text = keyword.spelling := by
  induction text using runs_induction with
  | nil => simp at member
  | symbol c text other ih =>
    rw [tokenize_symbol other] at member
    rcases List.mem_cons.mp member with rfl | later
    · cases kind
    · exact ih later
  | run run rest isRun border ih =>
    rw [tokenize_run isRun border] at member
    rcases List.mem_cons.mp member with rfl | later
    · exact text_of_runKind kind
    · exact ih later

theorem isRun_spelling (keyword : Keyword) : IsRun keyword.spelling := by
  apply IsRun.of_all
  · cases keyword <;> decide
  · cases keyword <;> decide

theorem runKind_spelling (keyword : Keyword) {rest : Text} (ends : endsKeyword rest.head?) :
    runKind keyword.spelling rest = .keyword keyword := by
  simp [runKind, keyword.ofSpelling?_spelling, ends]

theorem standsIn_run {run after : Text} (isRun : IsRun run) (border : EndsRun after) (before : Text)
    (starts : ∀ c ∈ before.getLast?, isWordChar c = false) :
    StandsIn ⟨runKind run after, run⟩ (before ++ run ++ after) before after := by
  refine ⟨tokenize before, tokenize after, ?_, flatMap_text_tokenize _, flatMap_text_tokenize _⟩
  rw [List.append_assoc, tokenize_append (.inl starts), tokenize_run isRun border]

/-- A keyword's word is a keyword where no run goes on before it and an ASCII character that is in
no word, or nothing at all, comes after it. -/
theorem standsIn_spelling (keyword : Keyword) (before after : Text)
    (starts : ∀ c ∈ before.getLast?, isWordChar c = false)
    (ends : ∀ c ∈ after.head?, isWordChar c = false ∧ c.toNat < 0x80) :
    StandsIn ⟨.keyword keyword, keyword.spelling⟩ (before ++ keyword.spelling ++ after) before
      after := by
  have kind : runKind keyword.spelling after = .keyword keyword := by
    apply runKind_spelling
    cases after with
    | nil => rfl
    | cons c after => simp [endsKeyword, (ends c (by simp)).2]
  have border : EndsRun after := fun c first => (ends c first).1
  rw [← kind]
  exact standsIn_run (isRun_spelling keyword) border before starts

end Token

end Lipi
