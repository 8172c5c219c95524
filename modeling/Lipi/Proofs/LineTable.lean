import Lipi.Proofs.Position
import Lipi.Proofs.Text.Utf8

/-!
# Positions from a table of line starts

`Position.ofOffset` goes through the lines of a text. `ofTable?` looks the line of an offset up, by
bisection in a table of the offsets at which lines start, and reads the text from there on. It has
no answer if one of its steps cannot be done: an entry that is not in the table, a difference below
zero, a cut inside a character. `ofTable?_eq` says that there always is an answer, and that it is
the same.
-/

namespace Lipi

namespace Text

/-- The offsets at which the lines after the first one start, in a text that starts at `offset`. -/
def laterStarts (offset : Nat) : Text → List Nat
  | [] => []
  | c :: text =>
    if c = '\n' then (offset + 1) :: laterStarts (offset + c.utf8Size) text
    else laterStarts (offset + c.utf8Size) text

/-- The offsets at which the lines of a text start. -/
def lineStarts (text : Text) : List Nat :=
  0 :: laterStarts 0 text

/-- What the text has from an offset on, if no character is cut there. -/
def dropBytes? (offset : Nat) (text : Text) : Option Text :=
  (Position.charsBefore? offset text).map text.drop

end Text

/-- The difference of two numbers, if it is not below zero. -/
def minus? (a b : Nat) : Option Nat :=
  if b ≤ a then some (a - b) else none

/-- Looks for a number among `size` increasing entries from `base` on, of which each step leaves a
half: the index it is found at, or as an error the index before which it would be put. There is no
answer if an entry to be looked at is not there. -/
def bisect? (entries : List Nat) (wanted base size : Nat) : Option (Except Nat Nat) :=
  match size with
  | 0 => some (.error base)
  | 1 =>
    (entries[base]?).map fun entry =>
      if entry = wanted then .ok base
      else if entry < wanted then .error (base + 1)
      else .error base
  | more + 2 =>
    let half := (more + 2) / 2
    (entries[base + half]?).bind fun entry =>
      bisect? entries wanted (if wanted < entry then base else base + half) (more + 2 - half)
termination_by size
decreasing_by omega

/-- The index of the last entry that is not above a number. A miss is one step too far. -/
def lastIndex? (entries : List Nat) (wanted : Nat) : Option Nat :=
  (bisect? entries wanted 0 entries.length).bind fun
    | .ok index => some index
    | .error next => minus? next 1

namespace Position

/-- The position of an offset, from a table of line starts. -/
def ofTable? (text : Text) (offset : Nat) : Option Position := do
  let place := min offset (Text.byteLength text)
  let index ← lastIndex? (Text.lineStarts text) place
  let start ← (Text.lineStarts text)[index]?
  let rest ← Text.dropBytes? start text
  let within ← minus? place start
  return {
    line := index + 1
    column := (charsBefore? within rest).getD within + 1
    lineText := rest.takeWhile (· ≠ '\n') }

end Position

/-! ### Bisection -/

/-- The entry that bisection ends at is the last one that is not too large. -/
theorem bisect?_of_last {entries : List Nat} {wanted base size last entry : Nat}
    (found : entries[last]? = some entry)
    (upTo : ∀ (i e : Nat), entries[i]? = some e → (e ≤ wanted ↔ i ≤ last))
    (notBefore : base ≤ last) (notAfter : last < base + size)
    (room : base + size ≤ entries.length) :
    bisect? entries wanted base size =
      some (if entry = wanted then .ok last else .error (last + 1)) := by
  -- The last entry that is not too large stays among the entries that are left.
  fun_induction bisect? entries wanted base size with
  | case1 base => omega
  | case2 base =>
    have same : last = base := by omega
    subst same
    have reached := (upTo last entry found).mpr (Nat.le_refl last)
    rw [found, Option.map_some]
    by_cases equal : entry = wanted
    · rw [if_pos equal, if_pos equal]
    · rw [if_neg equal, if_neg equal, if_pos (by omega)]
  | case3 base more half ih =>
    have halved : half = (more + 2) / 2 := rfl
    obtain ⟨middle, present⟩ : ∃ middle, entries[base + half]? = some middle :=
      ⟨_, List.getElem?_eq_getElem (by omega)⟩
    have side := upTo (base + half) middle present
    have next := ih middle
    rw [present, Option.bind_some]
    by_cases large : wanted < middle
    · rw [dif_pos large] at next
      rw [if_pos large]
      exact next notBefore (by omega) (by omega)
    · rw [dif_neg large] at next
      rw [if_neg large]
      exact next (by omega) (by omega) (by omega)

theorem lastIndex?_eq {entries : List Nat} {wanted last entry : Nat}
    (found : entries[last]? = some entry)
    (upTo : ∀ (i e : Nat), entries[i]? = some e → (e ≤ wanted ↔ i ≤ last)) :
    lastIndex? entries wanted = some last := by
  obtain ⟨present, -⟩ := List.getElem?_eq_some_iff.mp found
  unfold lastIndex?
  rw [bisect?_of_last found upTo (Nat.zero_le last) (by omega) (by omega), Option.bind_some]
  by_cases equal : entry = wanted
  · rw [if_pos equal]
  · rw [if_neg equal]
    exact if_pos (by omega)

namespace Text

/-! ### The table -/

theorem getElem?_laterStarts (text : Text) (offset index : Nat) :
    (offset :: laterStarts offset text)[index]? =
      ((lines text)[index]?).map fun _ => offset + byteLength (endLines ((lines text).take index)) := by
  induction text generalizing offset index with
  | nil => cases index <;> simp [lines, laterStarts]
  | cons c text ih =>
    obtain ⟨first, rest, split⟩ := List.exists_cons_of_ne_nil (lines_ne_nil text)
    rw [lines, laterStarts]
    by_cases isNewline : c = '\n'
    · subst isNewline
      rw [if_pos rfl, if_pos rfl]
      cases index with
      | zero => simp
      | succ index =>
        rw [List.getElem?_cons_succ, utf8Size_newline, ih, List.getElem?_cons_succ]
        simp [utf8Size_newline, Nat.add_assoc]
    · rw [if_neg isNewline, if_neg isNewline]
      have later := ih (offset + c.utf8Size)
      rw [split] at later ⊢
      cases index with
      | zero => simp
      | succ index =>
        have entry := later (index + 1)
        rw [List.getElem?_cons_succ] at entry ⊢
        rw [entry]
        simp [Nat.add_assoc]

theorem getElem?_lineStarts (text : Text) (index : Nat) :
    (lineStarts text)[index]? =
      ((lines text)[index]?).map fun _ => byteLength (endLines ((lines text).take index)) := by
  rw [lineStarts, getElem?_laterStarts]
  simp

/-- The starts of the lines up to one are those that no offset on that line is before. -/
theorem lineStarts_le_iff {text line : Text} {rows rest : List Text} {within : Nat}
    (split : lines text = rows ++ line :: rest) (inside : within ≤ byteLength line)
    {index entry : Nat} (found : (lineStarts text)[index]? = some entry) :
    entry ≤ byteLength (endLines rows) + within ↔ index ≤ rows.length := by
  rw [getElem?_lineStarts] at found
  obtain ⟨_, -, rfl⟩ := Option.map_eq_some_iff.mp found
  rw [split]
  by_cases early : index ≤ rows.length
  · have part : endLines ((rows ++ line :: rest).take index) <+: endLines rows := by
      rw [List.take_append_of_le_length early]
      exact ⟨endLines (rows.drop index), by rw [← endLines_append, List.take_append_drop]⟩
    have short := byteLength_le_of_isPrefix part
    omega
  · obtain ⟨more, rfl⟩ : ∃ more, index = rows.length + 1 + more := ⟨index - rows.length - 1, by omega⟩
    have taken : (rows ++ line :: rest).take (rows.length + 1 + more) =
        rows ++ line :: rest.take more := by
      rw [Nat.add_assoc, List.take_length_add_append, Nat.add_comm, List.take_succ_cons]
    rw [taken, endLines_append, byteLength_append, byteLength_endLines_cons]
    omega

end Text

namespace Position

theorem charsBefore?_append {line : Text} {within : Nat} (inside : within ≤ Text.byteLength line)
    (after : Text) : charsBefore? within (line ++ after) = charsBefore? within line := by
  apply Option.ext
  intro count
  rw [charsBefore?_eq_some_iff, charsBefore?_eq_some_iff]
  constructor
  · rintro ⟨front, start, rfl, rfl⟩
    exact ⟨front, Text.isPrefix_of_byteLength_le start (List.prefix_append _ _) inside, rfl, rfl⟩
  · rintro ⟨front, start, rfl, rfl⟩
    exact ⟨front, start.trans (List.prefix_append _ _), rfl, rfl⟩

theorem dropBytes?_byteLength (front back : Text) :
    Text.dropBytes? (Text.byteLength front) (front ++ back) = some back := by
  unfold Text.dropBytes?
  rw [charsBefore?_byteLength, Option.map_some, List.drop_left]

theorem takeWhile_line {line after : Text} (single : '\n' ∉ line)
    (border : ∀ c ∈ after.head?, c = '\n') : (line ++ after).takeWhile (· ≠ '\n') = line := by
  rw [List.takeWhile_append_of_pos]
  · cases after with
    | nil => simp
    | cons c after => simp [border c rfl]
  · intro c member
    have other : c ≠ '\n' := by
      intro newline
      subst newline
      exact single member
    simpa using other

theorem ofOffset_min (text : Text) (offset : Nat) :
    ofOffset text offset = ofOffset text (min offset (Text.byteLength text)) := by
  simp [ofOffset]

theorem ofTable?_eq (text : Text) (offset : Nat) :
    ofTable? text offset = some (ofOffset text offset) := by
  obtain ⟨rows, line, rest, within, split, inside, place⟩ :=
    Text.exists_row_of_offset (Nat.min_le_right offset (Text.byteLength text))
  obtain ⟨after, whole, border⟩ := Text.exists_eq_of_row split
  have entry : (Text.lineStarts text)[rows.length]? = some (Text.byteLength (Text.endLines rows)) := by
    rw [Text.getElem?_lineStarts, split]
    simp
  have index : lastIndex? (Text.lineStarts text) (Text.byteLength (Text.endLines rows) + within) =
      some rows.length :=
    lastIndex?_eq entry fun _ _ found => Text.lineStarts_le_iff split inside found
  have cut : Text.dropBytes? (Text.byteLength (Text.endLines rows)) text = some (line ++ after) := by
    rw [whole, List.append_assoc]
    exact dropBytes?_byteLength _ _
  have difference : minus? (Text.byteLength (Text.endLines rows) + within)
      (Text.byteLength (Text.endLines rows)) = some within := by
    simp [minus?]
  have member : line ∈ Text.lines text := by simp [split]
  have single := Text.newline_not_mem_of_mem_lines member
  rw [ofOffset_min, place, ofOffset_of_row split inside]
  unfold ofTable?
  simp only [place, index, entry, cut, difference, Option.bind_eq_bind, Option.bind_some,
    charsBefore?_append inside, takeWhile_line single border]
  rfl

/-! ### What a position says -/

/-- The offset at which a line starts, by its index: the bytes of the lines before it, and one more
for the newline of each. -/
def startOfLine (text : Text) (index : Nat) : Nat :=
  ((Text.lines text).take index).foldr (fun row total => Text.byteLength row + 1 + total) 0

/-- The position tells the offset of the text: the line by the newlines before it, and the column by
the characters from the start of the line, or by the bytes if the offset is inside a character. -/
structure IsAt (position : Position) (text : Text) (offset : Nat) : Prop where
  line : position.line = 1 + ((Text.encode text).take offset).count 0x0A
  lineText : (Text.lines text)[position.line - 1]? = some position.lineText
  start_le : startOfLine text (position.line - 1) ≤ offset
  chars : Text.IsBoundary text offset →
    ∃ part, Text.Slice text (startOfLine text (position.line - 1)) offset part ∧
      position.column = 1 + part.length
  bytes : ¬ Text.IsBoundary text offset →
    position.column = 1 + (offset - startOfLine text (position.line - 1))
  offset_eq : Text.IsBoundary text offset →
    offset = startOfLine text (position.line - 1) +
      Text.byteLength (position.lineText.take (position.column - 1))

section Row

variable {text line : Text} {rows rest : List Text} {within : Nat}

theorem startOfLine_eq (split : Text.lines text = rows ++ line :: rest) :
    startOfLine text rows.length = Text.byteLength (Text.endLines rows) := by
  rw [startOfLine, split, List.take_left, Text.byteLength_endLines]

theorem count_newline_take (split : Text.lines text = rows ++ line :: rest)
    (inside : within ≤ Text.byteLength line) :
    ((Text.encode text).take (Text.byteLength (Text.endLines rows) + within)).count 0x0A =
      rows.length := by
  obtain ⟨after, whole, -⟩ := Text.exists_eq_of_row split
  have single : ∀ row ∈ rows ++ line :: rest, '\n' ∉ row := by
    rw [← split]
    exact fun row member => Text.newline_not_mem_of_mem_lines member
  have earlier : (Text.endLines rows).count '\n' = rows.length :=
    Text.count_newline_endLines fun row member => single row (by simp [member])
  have here : 0x0A ∉ (Text.encode line).take within := by
    intro member
    have present := List.count_pos_iff.mpr (List.mem_of_mem_take member)
    rw [Text.count_encode_newline] at present
    exact single line (by simp) (List.count_pos_iff.mp present)
  rw [whole, List.append_assoc, Text.encode_append, Text.encode_append, ← Text.length_encode,
    List.take_length_add_append, List.take_append_of_le_length (by rwa [Text.length_encode]),
    List.count_append, Text.count_encode_newline, earlier, List.count_eq_zero.mpr here, Nat.add_zero]

theorem isBoundary_iff (split : Text.lines text = rows ++ line :: rest)
    (inside : within ≤ Text.byteLength line) :
    Text.IsBoundary text (Text.byteLength (Text.endLines rows) + within) ↔
      ∃ front, front <+: line ∧ Text.byteLength front = within := by
  obtain ⟨after, whole, -⟩ := Text.exists_eq_of_row split
  rw [List.append_assoc] at whole
  constructor
  · rintro ⟨front, start, size⟩
    have earlier : Text.endLines rows <+: front :=
      Text.isPrefix_of_byteLength_le ⟨_, whole.symm⟩ start (by omega)
    obtain ⟨front, rfl⟩ := earlier
    rw [Text.byteLength_append] at size
    rw [whole] at start
    have onLine := (List.prefix_append_right_inj _).mp start
    exact ⟨front, Text.isPrefix_of_byteLength_le onLine (List.prefix_append _ _) (by omega), by omega⟩
  · rintro ⟨front, ⟨back, rfl⟩, rfl⟩
    exact ⟨Text.endLines rows ++ front, ⟨back ++ after, by simp [whole]⟩, Text.byteLength_append _ _⟩

theorem isAt_of_row (split : Text.lines text = rows ++ line :: rest)
    (inside : within ≤ Text.byteLength line) :
    (ofOffset text (Text.byteLength (Text.endLines rows) + within)).IsAt text
      (Text.byteLength (Text.endLines rows) + within) := by
  have start := startOfLine_eq split
  have boundary := isBoundary_iff split inside
  rw [ofOffset_of_row split inside]
  constructor
  all_goals dsimp only [Nat.add_one_sub_one]
  case line => rw [count_newline_take split inside, Nat.add_comm]
  case lineText => simp [split]
  case start_le => omega
  case chars =>
    intro uncut
    obtain ⟨front, ⟨back, rfl⟩, rfl⟩ := boundary.mp uncut
    obtain ⟨after, whole, -⟩ := Text.exists_eq_of_row split
    refine ⟨front, ⟨⟨Text.endLines rows, back ++ after, by simp [whole], start.symm⟩, by omega⟩, ?_⟩
    rw [charsBefore?_byteLength, Option.getD_some, Nat.add_comm]
  case bytes =>
    intro cut
    have uncounted : charsBefore? within line = none := by
      rw [Option.eq_none_iff_forall_not_mem]
      intro count counted
      obtain ⟨front, start, size, -⟩ := charsBefore?_eq_some_iff.mp counted
      exact cut (boundary.mpr ⟨front, start, size⟩)
    rw [uncounted, Option.getD_none, start]
    omega
  case offset_eq =>
    intro uncut
    obtain ⟨front, ⟨back, rfl⟩, rfl⟩ := boundary.mp uncut
    rw [charsBefore?_byteLength, Option.getD_some, List.take_left, start]

end Row

/-- Every offset of every text has a position. The lookup in the table never leaves its range, and
the position tells the offset, with the end of the text in place of an offset beyond it. -/
theorem position_of_any_offset (text : Text) (offset : Nat) :
    ofTable? text offset = some (ofOffset text offset) ∧
    (∃ entry ∈ Text.lineStarts text, entry ≤ min offset (Text.byteLength text)) ∧
    (ofOffset text offset).IsAt text (min offset (Text.byteLength text)) := by
  refine ⟨ofTable?_eq text offset, ⟨0, by simp [Text.lineStarts], Nat.zero_le _⟩, ?_⟩
  obtain ⟨rows, line, rest, within, split, inside, place⟩ :=
    Text.exists_row_of_offset (Nat.min_le_right offset (Text.byteLength text))
  rw [ofOffset_min, place]
  exact isAt_of_row split inside

end Position

end Lipi
