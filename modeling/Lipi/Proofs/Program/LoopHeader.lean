import Mathlib.Order.Bounds.Basic
import Lipi.Program.Loop
import Lipi.Proofs.Text.Occurrence
import Lipi.Proofs.Text.Space

/-!
# Loop headers

`headerBrace?` counts bytes up to a brace. What it stands for is a `LoopHeader`: white space, the
loop keyword and a pair of parentheses, with white space in between. Of what the parentheses hold
nothing is known, not even that they are partners. A line is read up to the first parenthesis
(`LoopOpening`), and from there on the first brace counts that comes after a closing parenthesis and
white space (`bodyBrace?_eq_some_iff`).
-/

namespace Lipi

/-! ### Up to the condition -/

theorem Text.trimStart_loop {indent : Text} (spaces : ∀ c ∈ indent, isSpace c) (rest : Text) :
    trimStart (indent ++ (Keyword.loop.spelling ++ rest)) = Keyword.loop.spelling ++ rest := by
  rw [trimStart_append_of_isSpace spaces, trimStart_of_not_isSpace]
  intro c first
  cases first
  decide

/-- What stands on a line in front of the parenthesis after a loop keyword. -/
structure LoopOpening where
  indent : Text
  gap : Text
  indent_isSpace : ∀ c ∈ indent, Text.isSpace c
  gap_isSpace : ∀ c ∈ gap, Text.isSpace c

namespace LoopOpening

def text (opening : LoopOpening) : Text :=
  opening.indent ++ Keyword.loop.spelling ++ opening.gap

theorem trimStart_text_append (opening : LoopOpening) (rest : Text) :
    Text.trimStart (opening.text ++ rest) = Keyword.loop.spelling ++ (opening.gap ++ rest) := by
  rw [text, List.append_assoc, List.append_assoc, Text.trimStart_loop opening.indent_isSpace]

theorem trimStart_gap_append (opening : LoopOpening) (condition : Text) :
    Text.trimStart (opening.gap ++ '(' :: condition) = '(' :: condition :=
  Text.trimStart_append_cons (by decide) opening.gap_isSpace condition

theorem headerBrace?_eq (opening : LoopOpening) (condition : Text) :
    Text.headerBrace? (opening.text ++ '(' :: condition) =
      Text.bodyBrace? (Text.byteLength opening.text + 1) condition := by
  have size : ('(' : Char).utf8Size = 1 := by decide
  have offset : Text.byteLength (opening.text ++ '(' :: condition) - Text.byteLength condition =
      Text.byteLength opening.text + 1 := by
    rw [Text.byteLength_append, Text.byteLength_cons, size]
    omega
  simp only [Text.headerBrace?, trimStart_text_append, Text.after?_append, trimStart_gap_append,
    offset, if_true]

theorem exists_of_headerBrace? {line : Text} {place : Nat}
    (found : Text.headerBrace? line = some place) :
    ∃ (opening : LoopOpening) (condition : Text), line = opening.text ++ '(' :: condition := by
  unfold Text.headerBrace? at found
  split at found
  · cases found
  · rename_i afterKeyword keyword
    split at found
    · cases found
    · rename_i c condition paren
      split at found
      · rename_i isParen
        subst isParen
        obtain ⟨indent, indented, indent_isSpace⟩ := Text.exists_eq_append_trimStart line
        obtain ⟨gap, gapped, gap_isSpace⟩ := Text.exists_eq_append_trimStart afterKeyword
        rw [paren] at gapped
        rw [Text.after?_eq_some_iff.mp keyword, gapped] at indented
        exact ⟨⟨indent, gap, indent_isSpace, gap_isSpace⟩, condition, by simpa [text] using indented⟩
      · cases found

end LoopOpening

/-! ### From the condition to the brace -/

namespace Text

/-- In a text that starts at `offset`, a closing parenthesis and white space lead up to a brace at
`place`. -/
def ClosedBefore (offset : Nat) (text : Text) (place : Nat) : Prop :=
  ∃ inside space rest, text = inside ++ ')' :: space ++ '{' :: rest ∧ (∀ c ∈ space, isSpace c) ∧
    place = offset + byteLength (inside ++ ')' :: space)

theorem closedBefore_cons_iff {offset place : Nat} {c : Char} {text : Text} :
    ClosedBefore offset (c :: text) place ↔
      ((c = ')' ∧ (trimStart text).head? = some '{') ∧
        place = offset + c.utf8Size + byteLength (text.takeWhile isSpace)) ∨
      ClosedBefore (offset + c.utf8Size) text place := by
  have visible : isSpace '{' = false := by decide
  constructor
  · rintro ⟨inside, space, rest, split, spaces, rfl⟩
    cases inside with
    | nil =>
      obtain ⟨rfl, rfl⟩ := List.cons.inj split
      refine .inl ⟨⟨rfl, ?_⟩, ?_⟩
      · exact congrArg List.head? (trimStart_append_cons visible spaces rest)
      · change _ = _ + byteLength ((space ++ '{' :: rest).takeWhile isSpace)
        rw [takeWhile_append_cons visible spaces rest, List.nil_append, byteLength_cons, Nat.add_assoc]
    | cons d inside =>
      obtain ⟨rfl, rfl⟩ := List.cons.inj split
      exact .inr ⟨inside, space, rest, rfl, spaces, by simp [Nat.add_assoc]⟩
  · rintro (⟨⟨rfl, first⟩, rfl⟩ | ⟨inside, space, rest, rfl, spaces, rfl⟩)
    · obtain ⟨rest, trimmed⟩ := List.head?_eq_some_iff.mp first
      obtain ⟨space, rfl, spaces⟩ := (trimStart_eq_cons_iff visible).mp trimmed
      refine ⟨[], space, rest, rfl, spaces, ?_⟩
      rw [takeWhile_append_cons visible spaces rest, List.nil_append, byteLength_cons, Nat.add_assoc]
    · exact ⟨c :: inside, space, rest, rfl, spaces, by simp [Nat.add_assoc]⟩

theorem le_of_closedBefore {offset place : Nat} {text : Text}
    (closed : ClosedBefore offset text place) :
    offset + byteLength (text.takeWhile isSpace) ≤ place := by
  obtain ⟨inside, space, rest, split, -, rfl⟩ := closed
  have start : inside ++ ')' :: space <+: text := ⟨'{' :: rest, split.symm⟩
  rcases List.prefix_or_prefix_of_prefix (List.takeWhile_prefix isSpace) start with short | long
  · exact Nat.add_le_add_left (byteLength_le_of_isPrefix short) offset
  · have member : ')' ∈ text.takeWhile isSpace := long.subset (by simp)
    have space := List.all_eq_true.mp List.all_takeWhile _ member
    cases space

theorem bodyBrace?_eq_some_iff {offset place : Nat} {text : Text} :
    bodyBrace? offset text = some place ↔ IsLeast {place | ClosedBefore offset text place} place := by
  induction text generalizing offset with
  | nil => simp [bodyBrace?, IsLeast, ClosedBefore]
  | cons c text ih =>
    rw [bodyBrace?]
    split
    · rename_i here
      have least : IsLeast {place | ClosedBefore offset (c :: text) place}
          (offset + c.utf8Size + byteLength (text.takeWhile isSpace)) := by
        refine ⟨closedBefore_cons_iff.mpr (.inl ⟨here, rfl⟩), ?_⟩
        intro other closed
        -- A parenthesis further on comes after the white space, so its brace does as well.
        rcases closedBefore_cons_iff.mp closed with ⟨-, rfl⟩ | later
        · exact Nat.le_refl _
        · exact le_of_closedBefore later
      rw [Option.some_inj]
      exact ⟨fun same => same ▸ least, least.unique⟩
    · rename_i other
      have same : ∀ place, ClosedBefore offset (c :: text) place ↔
          ClosedBefore (offset + c.utf8Size) text place := by
        intro place
        simp [closedBefore_cons_iff, other]
      simp only [ih, same]

end Text

/-! ### Whole headers -/

/-- What stands on a line in front of the brace that opens a loop's body. -/
structure LoopHeader where
  indent : Text
  gap : Text
  condition : Text
  space : Text
  indent_isSpace : ∀ c ∈ indent, Text.isSpace c
  gap_isSpace : ∀ c ∈ gap, Text.isSpace c
  space_isSpace : ∀ c ∈ space, Text.isSpace c

namespace LoopHeader

def afterKeyword (header : LoopHeader) : Text :=
  header.gap ++ '(' :: header.condition ++ ')' :: header.space

def text (header : LoopHeader) : Text :=
  header.indent ++ Keyword.loop.spelling ++ header.afterKeyword

def opening (header : LoopHeader) : LoopOpening :=
  ⟨header.indent, header.gap, header.indent_isSpace, header.gap_isSpace⟩

theorem text_eq (header : LoopHeader) :
    header.text = header.opening.text ++ '(' :: (header.condition ++ ')' :: header.space) := by
  simp [text, afterKeyword, opening, LoopOpening.text]

/-- There is one way to read a header. -/
theorem condition_eq_of_text_eq {header other : LoopHeader} (same : header.text = other.text) :
    header.condition = other.condition := by
  rw [header.text_eq, other.text_eq] at same
  have parts := congrArg Text.trimStart same
  rw [LoopOpening.trimStart_text_append, LoopOpening.trimStart_text_append,
    List.append_cancel_left_eq] at parts
  have parens := congrArg Text.trimStart parts
  rw [LoopOpening.trimStart_gap_append, LoopOpening.trimStart_gap_append] at parens
  have conditions := congrArg Text.trimEnd (List.cons.inj parens).2
  rw [Text.trimEnd_append_cons (by decide) _ header.space_isSpace,
    Text.trimEnd_append_cons (by decide) _ other.space_isSpace] at conditions
  exact List.append_cancel_right conditions

end LoopHeader

/-- A line with the brace of a loop starts with a loop header, up to that brace. -/
theorem Text.exists_loopHeader_of_headerBrace? {line : Text} {place : Nat}
    (found : headerBrace? line = some place) :
    ∃ (header : LoopHeader) (rest : Text),
      line = header.text ++ '{' :: rest ∧ place = byteLength header.text := by
  obtain ⟨opening, condition, rfl⟩ := LoopOpening.exists_of_headerBrace? found
  rw [opening.headerBrace?_eq, bodyBrace?_eq_some_iff] at found
  obtain ⟨inside, space, rest, rfl, space_isSpace, rfl⟩ := found.1
  refine ⟨⟨opening.indent, opening.gap, inside, space, opening.indent_isSpace, opening.gap_isSpace,
    space_isSpace⟩, rest, ?_, ?_⟩
  · simp [LoopHeader.text_eq, LoopHeader.opening, LoopOpening.text]
  · have size : ('(' : Char).utf8Size = 1 := by decide
    rw [LoopHeader.text_eq]
    change _ = byteLength (opening.text ++ '(' :: (inside ++ ')' :: space))
    rw [byteLength_append opening.text, byteLength_cons, size, Nat.add_assoc]

end Lipi
