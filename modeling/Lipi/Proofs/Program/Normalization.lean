import Lipi.Program.Statement
import Lipi.Proofs.Text.Lines
import Lipi.Proofs.Text.Space

/-!
# Normalization

Comments are dropped and statements terminated line by line. A line only loses its end and gains
at most a terminator, so what stands on it stays where it is (`isPrefix_of_normalizeLine`), and a
line in plain form is left as it is (`stripComments_normalize`, `terminateStatements_normalize`).
-/

namespace Lipi.Text

/-! ### Comments -/

/-- The rest of a line after a backslash, which takes one character along. -/
def afterBackslash (quote : Option Quote) : Text → Text
  | [] => []
  | escaped :: rest => escaped :: beforeComment quote rest

theorem beforeComment_backslash (quote : Option Quote) (text : Text) :
    beforeComment quote ('\\' :: text) = '\\' :: afterBackslash quote text := by
  cases text <;> simp [beforeComment, afterBackslash]

theorem beforeComment_cons {quote : Option Quote} {c : Char} {text : Text} (notEscape : c ≠ '\\')
    (notComment : ¬ (quote = none ∧ c = '/' ∧ text.head? = some '/')) :
    beforeComment quote (c :: text) = c :: beforeComment (Quote.next quote c) text := by
  rw [beforeComment.eq_def]
  simp only [if_neg notEscape, if_neg notComment]

theorem beforeComment_comment {quote : Option Quote} {c : Char} {text : Text} (outside : quote = none)
    (slash : c = '/') (second : text.head? = some '/') : beforeComment quote (c :: text) = [] := by
  rw [beforeComment.eq_def]
  simp [outside, slash, second]

theorem beforeComment_append (quote : Option Quote) {front : Text}
    (inert : ∀ c ∈ front, c ∉ ['\\', '/', '\'', '"']) (rest : Text) :
    beforeComment quote (front ++ rest) = front ++ beforeComment quote rest := by
  induction front with
  | nil => rfl
  | cons c front ih =>
    have here := inert c (by simp)
    simp only [List.mem_cons, List.not_mem_nil, or_false, not_or] at here
    obtain ⟨notEscape, notSlash, notSingle, notDouble⟩ := here
    have sameQuote : Quote.next quote c = quote := by
      unfold Quote.next
      split <;> simp [notSingle, notDouble]
    rw [List.cons_append, beforeComment_cons notEscape (fun comment => notSlash comment.2.1),
      sameQuote, ih fun d member => inert d (List.mem_cons_of_mem _ member), List.cons_append]

theorem isPrefix_beforeComment (quote : Option Quote) (line : Text) :
    beforeComment quote line <+: line := by
  fun_induction beforeComment quote line with
  | case1 => exact List.prefix_rfl
  | case2 => exact List.prefix_rfl
  | case3 quote escaped rest ih => simpa [List.cons_prefix_cons] using ih
  | case4 => exact List.nil_prefix
  | case5 quote c text _ _ ih => simpa [List.cons_prefix_cons] using ih

theorem isPrefix_stripLine (line : Text) : stripLine line <+: line :=
  isPrefix_beforeComment none line

/-- What is kept of a line has no comment, even with a terminator after it. -/
theorem beforeComment_beforeComment_append (quote : Option Quote) (line : Text) {ending : Text}
    (short : ending = [] ∨ ending = [terminator]) :
    beforeComment quote (beforeComment quote line ++ ending) = beforeComment quote line ++ ending := by
  have plain : ∀ quote, beforeComment quote ending = ending := by
    rcases short with rfl | rfl <;> intro quote
    · rfl
    · simp [beforeComment, terminator]
  have noSlash : ending.head? ≠ some '/' := by
    rcases short with rfl | rfl <;> decide
  fun_induction beforeComment quote line with
  | case1 quote => exact plain quote
  | case2 quote =>
    rcases short with rfl | rfl <;> simp [beforeComment]
  | case3 quote escaped rest ih => simp [beforeComment, ih]
  | case4 quote => exact plain _
  | case5 quote c text notEscape notComment ih =>
    have still : ¬ (quote = none ∧ c = '/' ∧
        (beforeComment (Quote.next quote c) text ++ ending).head? = some '/') := by
      rintro ⟨outside, slash, second⟩
      have next : text.head? ≠ some '/' := fun slash' => notComment ⟨outside, slash, slash'⟩
      cases kept : beforeComment (Quote.next quote c) text with
      | nil => exact noSlash (by simpa [kept] using second)
      | cons d kept' =>
        obtain ⟨rest, same⟩ := isPrefix_beforeComment (Quote.next quote c) text
        rw [kept] at same second
        exact next (by simpa [← same] using second)
    rw [List.cons_append, beforeComment_cons notEscape still, ih]

theorem stripLine_stripLine (line : Text) : stripLine (stripLine line) = stripLine line := by
  have kept := beforeComment_beforeComment_append none line (Or.inl rfl)
  rwa [List.append_nil] at kept

/-- No comment is left after the white space at the start of a line. -/
theorem commentMarker_not_isPrefix_stripLine (line : Text) :
    ¬ commentMarker <+: trimStart (stripLine line) := by
  rintro ⟨rest, comment⟩
  obtain ⟨blank, whole, spaces⟩ := exists_eq_append_trimStart (stripLine line)
  have inert : ∀ c ∈ blank, c ∉ ['\\', '/', '\'', '"'] := by
    intro c member special
    have visible : ['\\', '/', '\'', '"'].all (!isSpace ·) := by decide
    have noSpace := List.all_eq_true.mp visible c special
    rw [spaces c member] at noSpace
    cases noSpace
  -- The line is what stripping leaves of itself, and that ends at the comment.
  have kept := stripLine_stripLine line
  rw [whole, ← comment, stripLine, beforeComment_append none inert, List.append_cancel_left_eq,
    commentMarker, List.cons_append, beforeComment_comment rfl rfl rfl] at kept
  cases kept

/-! ### Terminators -/

theorem endsStatement_iff {c : Char} : endsStatement c ↔ c ∈ ['{', '}', ';'] := by
  simp only [endsStatement, Bool.or_eq_true, decide_eq_true_eq, or_assoc, List.mem_cons,
    List.not_mem_nil, or_false]
  rfl

theorem terminateLine_eq (line : Text) :
    terminateLine line =
      if lastVisible? line = none then []
      else if commentMarker <+: trimStart line then line
      else if (lastVisible? line).any endsStatement then line
      else line ++ [terminator] := by
  have slashes : commentMarker.all (!isSpace ·) := by decide
  have marker : ∀ c ∈ commentMarker, isSpace c = false := by simpa using slashes
  simp only [terminateLine, List.isEmpty_iff, trim_eq_nil_iff, after?_isSome_iff,
    isPrefix_trim_iff marker, getLast?_trim]

theorem terminateLine_cases (line : Text) :
    terminateLine line = [] ∨ terminateLine line = line ∨
      terminateLine line = line ++ [terminator] := by
  rw [terminateLine_eq]
  split
  · exact Or.inl rfl
  · split
    · exact Or.inr (Or.inl rfl)
    · split
      · exact Or.inr (Or.inl rfl)
      · exact Or.inr (Or.inr rfl)

theorem terminateLine_terminateLine (line : Text) :
    terminateLine (terminateLine line) = terminateLine line := by
  rcases terminateLine_cases line with blank | same | ended
  · rw [blank]
    rfl
  · rw [same, same]
  · have last : lastVisible? (line ++ [terminator]) = some terminator := by
      rw [lastVisible?_append, show lastVisible? [terminator] = some terminator by decide]
      rfl
    have ends : endsStatement terminator = true := by decide
    rw [ended, terminateLine_eq, last]
    simp [ends]

/-! ### The plain form of a program -/

/-- A line without its comment and with its statement terminated. -/
def normalizeLine (line : Text) : Text :=
  terminateLine (stripLine line)

/-- A program without its comments and with its statements terminated. -/
def normalize (program : Text) : Text :=
  terminateStatements (stripComments program)

theorem normalizeLine_cases (line : Text) :
    normalizeLine line = [] ∨ ∃ c, lastVisible? (normalizeLine line) = some c ∧ endsStatement c := by
  rw [normalizeLine, terminateLine_eq, if_neg (commentMarker_not_isPrefix_stripLine line)]
  split
  · exact .inl rfl
  · split
    · rename_i ends
      exact .inr ((Option.any_eq_true _ _).mp ends)
    · refine .inr ⟨terminator, ?_, by decide⟩
      rw [lastVisible?_append]
      rfl

theorem newline_not_mem_stripLine (line : Text) (single : '\n' ∉ line) : '\n' ∉ stripLine line :=
  fun member => single ((isPrefix_stripLine line).subset member)

theorem newline_not_mem_terminateLine (line : Text) (single : '\n' ∉ line) :
    '\n' ∉ terminateLine line := by
  rcases terminateLine_cases line with same | same | same <;> rw [same]
  · simp
  · exact single
  · simp [single, terminator]

theorem normalize_eq_mapLines (program : Text) :
    normalize program = mapLines normalizeLine program :=
  mapLines_mapLines terminateLine newline_not_mem_stripLine program

theorem lines_normalize (program : Text) :
    lines (normalize program) = (lines program).map normalizeLine := by
  rw [normalize_eq_mapLines]
  exact lines_mapLines (fun line single =>
    newline_not_mem_terminateLine _ (newline_not_mem_stripLine line single)) program

/-- A token in the plain form of a line is in the line itself, at the same place. -/
theorem isPrefix_of_normalizeLine {token line : Text} {column : Nat} (someChar : token ≠ [])
    (noTerminator : terminator ∉ token) (start : token <+: (normalizeLine line).drop column) :
    token <+: line.drop column := by
  have kept : token <+: (stripLine line).drop column := by
    unfold normalizeLine at start
    rcases terminateLine_cases (stripLine line) with same | same | same <;> rw [same] at start
    · simp [someChar] at start
    · exact start
    · rw [List.drop_append] at start
      obtain ⟨rest, same⟩ := start
      rcases List.append_eq_append_iff.mp same with ⟨extra, inside, -⟩ | ⟨extra, outside, ending⟩
      · exact ⟨extra, inside.symm⟩
      · -- Whatever of the token is not in the stripped line is in the terminator.
        have covered : ∀ c ∈ extra, c ∈ [terminator] := fun c member =>
          List.mem_of_mem_drop (ending ▸ List.mem_append_left rest member)
        cases extra with
        | nil => exact ⟨[], by simpa using outside⟩
        | cons c extra =>
          have same := List.mem_singleton.mp (covered c (by simp))
          exact absurd (outside ▸ List.mem_append_right _ (by simp [same])) noTerminator
  obtain ⟨comment, whole⟩ := isPrefix_stripLine line
  rw [← whole, List.drop_append]
  exact kept.trans (List.prefix_append _ _)

theorem stripComments_normalize (program : Text) :
    stripComments (normalize program) = normalize program := by
  apply mapLines_eq_self
  intro line member
  rw [lines_normalize] at member
  obtain ⟨original, -, rfl⟩ := List.mem_map.mp member
  unfold normalizeLine
  rcases terminateLine_cases (stripLine original) with same | same | same <;> rw [same]
  · rfl
  · exact stripLine_stripLine original
  · exact beforeComment_beforeComment_append none original (Or.inr rfl)

theorem terminateStatements_normalize (program : Text) :
    terminateStatements (normalize program) = normalize program := by
  apply mapLines_eq_self
  intro line member
  rw [lines_normalize] at member
  obtain ⟨original, -, rfl⟩ := List.mem_map.mp member
  exact terminateLine_terminateLine (stripLine original)

theorem normalize_normalize (program : Text) : normalize (normalize program) = normalize program := by
  rw [normalize, stripComments_normalize, terminateStatements_normalize]

theorem isInfix_of_normalize {needle program : Text} (someChar : needle ≠ [])
    (single : '\n' ∉ needle) (noTerminator : terminator ∉ needle)
    (present : needle <:+: normalize program) : needle <:+: program := by
  rw [normalize_eq_mapLines] at present
  obtain ⟨piece, member, inside⟩ := exists_isInfix_of_joinLines someChar single present
  obtain ⟨line, original, rfl⟩ := List.mem_map.mp member
  obtain ⟨before, after, same⟩ := inside
  have start : needle <+: (normalizeLine line).drop before.length :=
    ⟨after, by simp [← same]⟩
  have kept := isPrefix_of_normalizeLine someChar noTerminator start
  have onLine : needle <:+: line := kept.isInfix.trans (List.drop_suffix _ _).isInfix
  exact onLine.trans (isInfix_of_mem_lines original)

end Lipi.Text
