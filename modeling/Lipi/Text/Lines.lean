import Lipi.Text.Basic

/-!
# Lines

Lines are the pieces of a text between its `\n` characters, so a text has one line more than it
has newlines, and a carriage return belongs to its line. `joinLines_lines` and
`lines_joinLines` say that splitting and joining undo each other.
-/

namespace Lipi.Text

/-- The pieces of a text between its newlines. -/
def lines : Text → List Text
  | [] => [[]]
  | c :: text =>
    if c = '\n' then [] :: lines text
    else match lines text with
      | [] => [[c]]
      | line :: rest => (c :: line) :: rest

/-- The lines with a newline between each two. -/
def joinLines : List Text → Text
  | [] => []
  | [line] => line
  | line :: rest => line ++ '\n' :: joinLines rest

theorem lines_ne_nil (text : Text) : lines text ≠ [] := by
  cases text with
  | nil => simp [lines]
  | cons c text =>
    rw [lines]
    split
    · simp
    · split <;> simp

/-- Applies a function to every line. -/
def mapLines (f : Text → Text) (text : Text) : Text :=
  joinLines ((lines text).map f)

/-- The offset at which the first line equal to `line` starts. -/
def lineStart? (line : Text) : List Text → Option Nat
  | [] => none
  | first :: rest =>
    if first = line then some 0
    else (lineStart? line rest).map (byteLength first + 1 + ·)

@[simp]
theorem joinLines_lines (text : Text) : joinLines (lines text) = text := by
  induction text with
  | nil => rfl
  | cons c text ih =>
    rw [lines]
    split
    · rename_i newline
      cases split : lines text with
      | nil => exact absurd split (lines_ne_nil text)
      | cons line rest => rw [joinLines, ← split, ih, newline, List.nil_append]; simp
    · cases split : lines text with
      | nil => exact absurd split (lines_ne_nil text)
      | cons line rest =>
        cases rest with
        | nil => rw [split] at ih; simpa [joinLines] using ih
        | cons next rest => rw [split] at ih; simpa [joinLines] using ih

theorem lines_of_no_newline {line : Text} (single : '\n' ∉ line) : lines line = [line] := by
  induction line with
  | nil => rfl
  | cons c line ih =>
    rw [List.mem_cons, not_or] at single
    rw [lines, if_neg (Ne.symm single.1), ih single.2]

theorem lines_append_newline {line : Text} (single : '\n' ∉ line) (text : Text) :
    lines (line ++ '\n' :: text) = line :: lines text := by
  induction line with
  | nil => simp [lines]
  | cons c line ih =>
    rw [List.mem_cons, not_or] at single
    rw [List.cons_append, lines, if_neg (Ne.symm single.1), ih single.2]

theorem newline_not_mem_of_mem_lines {text line : Text} (member : line ∈ lines text) :
    '\n' ∉ line := by
  induction text generalizing line with
  | nil => simp [lines] at member; simp [member]
  | cons c text ih =>
    rw [lines] at member
    split at member
    · rcases List.mem_cons.mp member with rfl | member
      · simp
      · exact ih member
    · rename_i other
      cases split : lines text with
      | nil => exact absurd split (lines_ne_nil text)
      | cons first rest =>
        simp only [split, List.mem_cons] at member ih
        rcases member with rfl | member
        · simp [Ne.symm other, ih (Or.inl rfl)]
        · exact ih (Or.inr member)

/-- Lines without newlines of their own are the lines of the text they make up. -/
theorem lines_joinLines {pieces : List Text} (someLine : pieces ≠ [])
    (single : ∀ piece ∈ pieces, '\n' ∉ piece) : lines (joinLines pieces) = pieces := by
  induction pieces with
  | nil => exact absurd rfl someLine
  | cons line rest ih =>
    cases rest with
    | nil => exact lines_of_no_newline (single line (by simp))
    | cons next rest =>
      rw [joinLines, lines_append_newline (single line (by simp)),
        ih (by simp) (fun piece member => single piece (List.mem_cons_of_mem _ member))]
      simp

end Lipi.Text
