import Lipi.Proofs.Text.Occurrence
import Lipi.Text.Lines

/-!
# Lines and the texts they make up

A place in a text is on one of its lines: everything before the place is a number of whole lines
and the start of one more (`exists_endLines`), and these whole lines are the first lines of the
text (`lines_endLines_append`). A function of lines is applied line by line (`lines_mapLines`).
-/

namespace Lipi.Text

theorem utf8Size_newline : ('\n' : Char).utf8Size = 1 := by decide

/-- The lines with a newline after each. -/
def endLines (rows : List Text) : Text :=
  rows.flatMap (· ++ ['\n'])

@[simp]
theorem endLines_nil : endLines [] = [] := rfl

@[simp]
theorem endLines_cons (row : Text) (rows : List Text) :
    endLines (row :: rows) = row ++ '\n' :: endLines rows := by
  simp [endLines]

theorem endLines_append (rows more : List Text) :
    endLines (rows ++ more) = endLines rows ++ endLines more := by
  simp [endLines]

theorem byteLength_endLines_cons (row : Text) (rows : List Text) :
    byteLength (endLines (row :: rows)) = byteLength row + 1 + byteLength (endLines rows) := by
  rw [endLines_cons, byteLength_append, byteLength_cons, utf8Size_newline, Nat.add_assoc]

theorem byteLength_endLines (rows : List Text) :
    byteLength (endLines rows) = rows.foldr (fun row total => byteLength row + 1 + total) 0 := by
  induction rows with
  | nil => rfl
  | cons row rows ih => rw [byteLength_endLines_cons, ih, List.foldr_cons]

theorem count_newline_endLines {rows : List Text} (single : ∀ row ∈ rows, '\n' ∉ row) :
    (endLines rows).count '\n' = rows.length := by
  induction rows with
  | nil => rfl
  | cons row rows ih =>
    have here : row.count '\n' = 0 := List.count_eq_zero.mpr (single row (by simp))
    have later := ih fun other member => single other (List.mem_cons_of_mem _ member)
    rw [endLines_cons, List.count_append, here, List.count_cons_self, later, Nat.zero_add,
      List.length_cons]

/-! ### The line of a place -/

theorem exists_endLines (text : Text) :
    ∃ rows last, text = endLines rows ++ last ∧ (∀ row ∈ rows, '\n' ∉ row) ∧ '\n' ∉ last := by
  induction text with
  | nil => exact ⟨[], [], rfl, by simp, by simp⟩
  | cons c text ih =>
    obtain ⟨rows, last, rfl, single, openLine⟩ := ih
    by_cases newline : c = '\n'
    · subst newline
      exact ⟨[] :: rows, last, by simp, by simpa using single, openLine⟩
    · cases rows with
      | nil => exact ⟨[], c :: last, by simp, by simp, by simp [Ne.symm newline, openLine]⟩
      | cons row rows =>
        refine ⟨(c :: row) :: rows, last, by simp, ?_, openLine⟩
        simpa [Ne.symm newline] using single

theorem lines_endLines_append {rows : List Text} (single : ∀ row ∈ rows, '\n' ∉ row)
    (text : Text) : lines (endLines rows ++ text) = rows ++ lines text := by
  induction rows with
  | nil => rfl
  | cons row rows ih =>
    rw [endLines_cons, List.append_assoc, List.cons_append,
      lines_append_newline (single row (by simp)),
      ih fun other member => single other (List.mem_cons_of_mem _ member), List.cons_append]

theorem lines_append_of_lines {text first : Text} {rest : List Text}
    (split : lines text = first :: rest) {front : Text} (single : '\n' ∉ front) :
    lines (front ++ text) = (front ++ first) :: rest := by
  induction front with
  | nil => exact split
  | cons c front ih =>
    rw [List.mem_cons, not_or] at single
    rw [List.cons_append, lines, if_neg (Ne.symm single.1), ih single.2]
    rfl

/-- The line of a place is what its text before the place and its text after it make up. -/
theorem lines_of_place {rows : List Text} {front after first : Text} {rest : List Text}
    (single : ∀ row ∈ rows, '\n' ∉ row) (openLine : '\n' ∉ front)
    (split : lines after = first :: rest) :
    lines (endLines rows ++ front ++ after) = rows ++ (front ++ first) :: rest := by
  rw [List.append_assoc, lines_endLines_append single, lines_append_of_lines split openLine]

/-- The lines before a place and the start of its line can be read off the text before it. -/
theorem lines_before_place {text line front : Text} {rows rest : List Text}
    (split : lines text = rows ++ line :: rest) (start : front <+: line) :
    lines (endLines rows ++ front) = rows ++ [front] := by
  have single : ∀ row ∈ rows ++ line :: rest, '\n' ∉ row := by
    rw [← split]
    exact fun row member => newline_not_mem_of_mem_lines member
  rw [lines_endLines_append fun row member => single row (by simp [member])]
  rw [lines_of_no_newline fun newline => single line (by simp) (start.subset newline)]

theorem joinLines_append_cons (rows : List Text) (line : Text) (rest : List Text) :
    ∃ after, joinLines (rows ++ line :: rest) = endLines rows ++ line ++ after ∧
      ∀ c ∈ after.head?, c = '\n' := by
  induction rows with
  | nil =>
    cases rest with
    | nil => exact ⟨[], by simp [joinLines], by simp⟩
    | cons next rest => exact ⟨'\n' :: joinLines (next :: rest), by simp [joinLines], by simp⟩
  | cons row rows ih =>
    obtain ⟨after, same, newline⟩ := ih
    refine ⟨after, ?_, newline⟩
    cases shape : rows ++ line :: rest with
    | nil => simp at shape
    | cons next others =>
      rw [List.cons_append, shape, joinLines, ← shape, same]
      · simp
      · simp

/-- A text is its lines up to one of them, that line, and what follows its newline. -/
theorem exists_eq_of_row {text line : Text} {rows rest : List Text}
    (split : lines text = rows ++ line :: rest) :
    ∃ after, text = endLines rows ++ line ++ after ∧ ∀ c ∈ after.head?, c = '\n' := by
  obtain ⟨after, whole, border⟩ := joinLines_append_cons rows line rest
  rw [← split, joinLines_lines] at whole
  exact ⟨after, whole, border⟩

theorem byteLength_of_row {text line : Text} {rows rest : List Text}
    (split : lines text = rows ++ line :: rest) :
    byteLength (endLines rows) + byteLength line ≤ byteLength text := by
  obtain ⟨after, whole, -⟩ := exists_eq_of_row split
  rw [whole, byteLength_append, byteLength_append]
  omega

/-- Every offset of a text is on one of its lines, or right after it. -/
theorem exists_row_of_offset {text : Text} {offset : Nat} (inside : offset ≤ byteLength text) :
    ∃ rows line rest within, lines text = rows ++ line :: rest ∧ within ≤ byteLength line ∧
      offset = byteLength (endLines rows) + within := by
  obtain ⟨pieces, split⟩ : ∃ pieces, lines text = pieces := ⟨_, rfl⟩
  have someLine : pieces ≠ [] := split ▸ lines_ne_nil text
  rw [← joinLines_lines text, split] at inside
  rw [split]
  clear split
  induction pieces generalizing offset with
  | nil => exact absurd rfl someLine
  | cons line rest ih =>
    by_cases here : offset ≤ byteLength line
    · exact ⟨[], line, rest, offset, rfl, here, by simp⟩
    · cases rest with
      | nil => exact absurd inside here
      | cons next rest =>
        rw [joinLines, byteLength_append, byteLength_cons, utf8Size_newline] at inside
        rotate_left
        · simp
        have later : offset - (byteLength line + 1) ≤ byteLength (joinLines (next :: rest)) := by
          omega
        obtain ⟨rows, found, others, within, same, short, place⟩ := ih later (by simp)
        refine ⟨line :: rows, found, others, within, by rw [same]; rfl, short, ?_⟩
        rw [byteLength_endLines_cons]
        omega

theorem isPrefix_first_of_lines {text first token : Text} {rest : List Text}
    (split : lines text = first :: rest) (single : '\n' ∉ token) (start : token <+: text) :
    token <+: first := by
  obtain ⟨after, rfl⟩ := start
  cases later : lines after with
  | nil => exact absurd later (lines_ne_nil after)
  | cons line others =>
    rw [lines_append_of_lines later single] at split
    exact ⟨line, (List.cons.inj split).1⟩

theorem isInfix_of_mem_lines {text line : Text} (member : line ∈ lines text) : line <:+: text := by
  obtain ⟨rows, rest, split⟩ := List.append_of_mem member
  obtain ⟨after, same, -⟩ := exists_eq_of_row split
  exact ⟨endLines rows, after, same.symm⟩

theorem exists_isInfix_of_joinLines {needle : Text} {pieces : List Text}
    (someChar : needle ≠ []) (single : '\n' ∉ needle) (present : needle <:+: joinLines pieces) :
    ∃ piece ∈ pieces, needle <:+: piece := by
  have whole : ∀ c ∈ needle, c ≠ '\n' := fun c member newline => single (newline ▸ member)
  induction pieces with
  | nil => exact absurd (List.infix_nil.mp present) someChar
  | cons line rest ih =>
    cases rest with
    | nil => exact ⟨line, by simp, present⟩
    | cons next rest =>
      rw [joinLines] at present
      rotate_left
      · simp
      rcases infix_append_cases whole (by simp) present with here | later
      · exact ⟨line, by simp, here⟩
      · rcases List.infix_cons_iff.mp later with start | later
        · cases needle with
          | nil => exact absurd rfl someChar
          | cons n needle =>
            obtain ⟨rest', same⟩ := start
            exact absurd (List.cons.inj same).1 (whole n (by simp))
        · obtain ⟨piece, member, inside⟩ := ih later
          exact ⟨piece, List.mem_cons_of_mem _ member, inside⟩

/-! ### Functions of lines -/

theorem lines_mapLines {f : Text → Text} (single : ∀ line, '\n' ∉ line → '\n' ∉ f line)
    (text : Text) : lines (mapLines f text) = (lines text).map f := by
  apply lines_joinLines
  · simpa using lines_ne_nil text
  · intro piece member
    obtain ⟨line, present, rfl⟩ := List.mem_map.mp member
    exact single line (newline_not_mem_of_mem_lines present)

theorem mapLines_eq_self {f : Text → Text} {text : Text} (fixed : ∀ line ∈ lines text, f line = line) :
    mapLines f text = text := by
  rw [mapLines, List.map_congr_left fixed, List.map_id', joinLines_lines]

theorem mapLines_mapLines {f : Text → Text} (g : Text → Text)
    (single : ∀ line, '\n' ∉ line → '\n' ∉ f line) (text : Text) :
    mapLines g (mapLines f text) = mapLines (fun line => g (f line)) text := by
  rw [mapLines, lines_mapLines single, List.map_map, mapLines, Function.comp_def]

end Lipi.Text
