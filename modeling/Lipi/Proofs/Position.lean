import Lipi.Position
import Lipi.Proofs.Text.Lines

/-!
# The position of a token

Positions count lines and characters, offsets count bytes. `pointsAt_ofOffset` brings the two
together: where a token stands at an offset, the position of the offset leads back to it.
-/

namespace Lipi.Position

/-- The text has the line that the position names, and what that line has from the position's
column on starts with the token. -/
def PointsAt (position : Position) (text token : Text) : Prop :=
  0 < position.line ∧ 0 < position.column ∧
    ∃ line, (Text.lines text)[position.line - 1]? = some line ∧
      token <+: line.drop (position.column - 1)

/-- The position shows the line of the text that it names. -/
def ShowsLine (position : Position) (text : Text) : Prop :=
  (Text.lines text)[position.line - 1]? = some position.lineText

theorem charsBefore?_byteLength (front back : Text) :
    charsBefore? (Text.byteLength front) (front ++ back) = some front.length := by
  induction front with
  | nil => simp [charsBefore?]
  | cons c front ih =>
    have positive := c.utf8Size_pos
    obtain ⟨offset, same⟩ : ∃ offset, c.utf8Size + Text.byteLength front = offset + 1 :=
      ⟨c.utf8Size + Text.byteLength front - 1, by omega⟩
    rw [List.cons_append, Text.byteLength_cons, same, charsBefore?, if_pos (by omega), ← same,
      Nat.add_sub_cancel_left, ih]
    rfl

theorem charsBefore?_eq_some_iff {offset count : Nat} {text : Text} :
    charsBefore? offset text = some count ↔
      ∃ front, front <+: text ∧ Text.byteLength front = offset ∧ front.length = count := by
  constructor
  · intro found
    fun_induction charsBefore? offset text generalizing count with
    | case1 text =>
      cases found
      exact ⟨[], List.nil_prefix, rfl, rfl⟩
    | case2 offset => cases found
    | case3 offset c text fits ih =>
      obtain ⟨rest, later, rfl⟩ := Option.map_eq_some_iff.mp found
      obtain ⟨front, start, size, rfl⟩ := ih later
      refine ⟨c :: front, List.cons_prefix_cons.mpr ⟨rfl, start⟩, ?_, rfl⟩
      rw [Text.byteLength_cons]
      omega
    | case4 offset c text cutOff => cases found
  · rintro ⟨front, ⟨back, rfl⟩, rfl, rfl⟩
    exact charsBefore?_byteLength front back

/-- The rows before a line take up their bytes and one more each, and are passed over. -/
theorem onLine_of_row (rows : List Text) {line : Text} {within : Nat}
    (inside : within ≤ Text.byteLength line) (rest : List Text) :
    onLine (Text.byteLength (Text.endLines rows) + within) (rows ++ line :: rest) =
      (rows.length, line, within) := by
  induction rows with
  | nil =>
    cases rest with
    | nil => simp [onLine]
    | cons next rest => simp [onLine, inside]
  | cons row rows ih =>
    have size : Text.byteLength (Text.endLines (row :: rows)) + within =
        Text.byteLength row + 1 + (Text.byteLength (Text.endLines rows) + within) := by
      rw [Text.byteLength_endLines_cons, Nat.add_assoc]
    cases later : rows ++ line :: rest with
    | nil => simp at later
    | cons next others =>
      rw [List.cons_append, later, onLine, if_neg (by omega), size, Nat.add_sub_cancel_left,
        ← later, ih]
      · rfl
      · simp

theorem ofOffset_of_row {text line : Text} {rows rest : List Text} {within : Nat}
    (split : Text.lines text = rows ++ line :: rest) (inside : within ≤ Text.byteLength line) :
    ofOffset text (Text.byteLength (Text.endLines rows) + within) =
      { line := rows.length + 1
        column := (charsBefore? within line).getD within + 1
        lineText := line } := by
  have room := Text.byteLength_of_row split
  simp only [ofOffset]
  rw [Nat.min_eq_left (by omega), split, onLine_of_row rows inside]

/-- Where the start of a line ends, the column counts its characters. -/
theorem ofOffset_of_front {text line front : Text} {rows rest : List Text}
    (split : Text.lines text = rows ++ line :: rest) (start : front <+: line) :
    ofOffset text (Text.byteLength (Text.endLines rows) + Text.byteLength front) =
      { line := rows.length + 1, column := front.length + 1, lineText := line } := by
  obtain ⟨back, rfl⟩ := start
  rw [ofOffset_of_row split (by simp), charsBefore?_byteLength]
  rfl

theorem ofOffset_append {rows : List Text} {front after first : Text} {rest : List Text}
    (single : ∀ row ∈ rows, '\n' ∉ row) (openLine : '\n' ∉ front)
    (split : Text.lines after = first :: rest) :
    ofOffset (Text.endLines rows ++ front ++ after) (Text.byteLength (Text.endLines rows ++ front)) =
      { line := rows.length + 1, column := front.length + 1, lineText := front ++ first } := by
  rw [Text.byteLength_append]
  exact ofOffset_of_front (Text.lines_of_place single openLine split) (List.prefix_append front first)

/-- The number of a line is the number of lines up to the place. -/
theorem line_ofOffset (before after : Text) :
    (ofOffset (before ++ after) (Text.byteLength before)).line = (Text.lines before).length := by
  obtain ⟨rows, front, rfl, single, openLine⟩ := Text.exists_endLines before
  obtain ⟨first, rest, split⟩ := List.exists_cons_of_ne_nil (Text.lines_ne_nil after)
  rw [ofOffset_append single openLine split, Text.lines_endLines_append single,
    Text.lines_of_no_newline openLine, List.length_append]
  rfl

theorem pointsAt_ofOffset {text token : Text} {offset : Nat} (occurs : Text.OccursAt text token offset)
    (single : '\n' ∉ token) :
    (ofOffset text offset).PointsAt text token ∧ (ofOffset text offset).ShowsLine text := by
  obtain ⟨before, after, rfl, rfl⟩ := occurs
  obtain ⟨rows, front, rfl, rowsSingle, frontSingle⟩ := Text.exists_endLines before
  cases split : Text.lines (token ++ after) with
  | nil => exact absurd split (Text.lines_ne_nil _)
  | cons first rest =>
    have pieces := Text.lines_of_place rowsSingle frontSingle split
    have start : token <+: first :=
      Text.isPrefix_first_of_lines split single (List.prefix_append token after)
    rw [List.append_assoc (Text.endLines rows ++ front),
      ofOffset_append rowsSingle frontSingle split]
    refine ⟨⟨Nat.succ_pos _, Nat.succ_pos _, front ++ first, ?_, ?_⟩, ?_⟩
    · rw [pieces]
      simp
    · simpa using start
    · rw [ShowsLine, pieces]
      simp

end Lipi.Position
