import Mathlib.Data.List.TakeWhile
import Lipi.Text.Space

/-!
# White space at the ends of a text

Trimming leaves a part of the text that runs from its first visible character to its last one,
`lastVisible?`.
-/

namespace Lipi.Text

theorem isSuffix_trimStart (text : Text) : trimStart text <:+ text :=
  List.dropWhile_suffix isSpace

theorem isPrefix_trimEnd (text : Text) : trimEnd text <+: text := by
  have reversed : text.reverse.dropWhile isSpace <:+ text.reverse := List.dropWhile_suffix isSpace
  simpa [trimEnd] using List.reverse_prefix.mpr reversed

theorem isInfix_trim (text : Text) : trim text <:+: text :=
  (isPrefix_trimEnd _).isInfix.trans (isSuffix_trimStart text).isInfix

theorem exists_eq_append_trimStart (text : Text) :
    ∃ blank, text = blank ++ trimStart text ∧ ∀ c ∈ blank, isSpace c := by
  refine ⟨text.takeWhile isSpace, List.takeWhile_append_dropWhile.symm, ?_⟩
  exact List.all_eq_true.mp List.all_takeWhile

theorem not_isSpace_of_head?_trimStart {text : Text} {c : Char}
    (first : (trimStart text).head? = some c) : isSpace c = false := by
  have visible := List.head?_dropWhile_not isSpace text
  unfold trimStart at first
  rwa [first] at visible

theorem trimStart_append_of_isSpace {blank : Text} (spaces : ∀ c ∈ blank, isSpace c) (text : Text) :
    trimStart (blank ++ text) = trimStart text :=
  List.dropWhile_append_of_pos spaces

theorem trimStart_of_not_isSpace {text : Text} (visible : ∀ c ∈ text.head?, isSpace c = false) :
    trimStart text = text := by
  cases text with
  | nil => rfl
  | cons c text => exact List.dropWhile_cons_of_neg (by simp [visible c (by simp)])

theorem trimStart_append_cons {c : Char} (visible : isSpace c = false) {gap : Text}
    (spaces : ∀ d ∈ gap, isSpace d) (rest : Text) : trimStart (gap ++ c :: rest) = c :: rest := by
  rw [trimStart_append_of_isSpace spaces, trimStart_of_not_isSpace]
  intro d first
  cases first
  exact visible

theorem takeWhile_append_cons {c : Char} (visible : isSpace c = false) {gap : Text}
    (spaces : ∀ d ∈ gap, isSpace d) (rest : Text) : (gap ++ c :: rest).takeWhile isSpace = gap := by
  rw [List.takeWhile_append_of_pos spaces, List.takeWhile_cons_of_neg (by simp [visible])]
  exact List.append_nil gap

theorem trimStart_eq_cons_iff {text rest : Text} {c : Char} (visible : isSpace c = false) :
    trimStart text = c :: rest ↔ ∃ gap, text = gap ++ c :: rest ∧ ∀ d ∈ gap, isSpace d := by
  constructor
  · intro shape
    obtain ⟨gap, same, spaces⟩ := exists_eq_append_trimStart text
    rw [shape] at same
    exact ⟨gap, same, spaces⟩
  · rintro ⟨gap, rfl, spaces⟩
    exact trimStart_append_cons visible spaces rest

theorem trimEnd_cons {c : Char} (visible : isSpace c = false) (text : Text) :
    trimEnd (c :: text) = c :: trimEnd text := by
  simp only [trimEnd, List.reverse_cons, List.dropWhile_append]
  split
  · rename_i blank
    simp [visible, List.isEmpty_iff.mp blank]
  · simp

theorem trimEnd_append_cons {c : Char} (visible : isSpace c = false) (front : Text) {blank : Text}
    (spaces : ∀ d ∈ blank, isSpace d) : trimEnd (front ++ c :: blank) = front ++ [c] := by
  have reversed : (front ++ c :: blank).reverse = blank.reverse ++ c :: front.reverse := by simp
  rw [trimEnd, reversed, List.dropWhile_append_of_pos (by simpa using spaces),
    List.dropWhile_cons_of_neg (by simp [visible])]
  simp

theorem trimEnd_append_of_isSpace (text : Text) {blank : Text} (spaces : ∀ c ∈ blank, isSpace c) :
    trimEnd (text ++ blank) = trimEnd text := by
  rw [trimEnd, List.reverse_append, List.dropWhile_append_of_pos (by simpa using spaces), ← trimEnd]

theorem exists_eq_trimEnd_append (text : Text) :
    ∃ blank, text = trimEnd text ++ blank ∧ ∀ c ∈ blank, isSpace c := by
  obtain ⟨blank, same, spaces⟩ := exists_eq_append_trimStart text.reverse
  refine ⟨blank.reverse, ?_, by simpa using spaces⟩
  have reversed := congrArg List.reverse same
  rwa [List.reverse_reverse, List.reverse_append] at reversed

theorem trim_trim (text : Text) : trim (trim text) = trim text := by
  have visible : ∀ c ∈ (trim text).head?, isSpace c = false := by
    intro c first
    obtain ⟨rest, same⟩ := isPrefix_trimEnd (trimStart text)
    obtain ⟨tail, shape⟩ := List.head?_eq_some_iff.mp first
    have start : (trimStart text).head? = some c := by
      rw [← same, ← trim, shape]
      rfl
    exact not_isSpace_of_head?_trimStart start
  obtain ⟨blank, same, spaces⟩ := exists_eq_trimEnd_append (trimStart text)
  have ended : trimEnd (trim text) = trim text := by
    have whole := congrArg trimEnd same
    rw [trimEnd_append_of_isSpace _ spaces] at whole
    exact whole.symm
  rw [trim, trimStart_of_not_isSpace visible, ended]

/-! ### The last visible character -/

/-- The last character that is not white space. -/
def lastVisible? (text : Text) : Option Char :=
  text.reverse.find? (!isSpace ·)

theorem lastVisible?_append (front back : Text) :
    lastVisible? (front ++ back) = (lastVisible? back).or (lastVisible? front) := by
  simp [lastVisible?, List.find?_append]

theorem lastVisible?_cons (c : Char) (text : Text) :
    lastVisible? (c :: text) = (lastVisible? text).or (lastVisible? [c]) :=
  lastVisible?_append [c] text

theorem lastVisible?_eq_none_iff {text : Text} : lastVisible? text = none ↔ ∀ c ∈ text, isSpace c := by
  simp [lastVisible?]

theorem lastVisible?_trimStart (text : Text) : lastVisible? (trimStart text) = lastVisible? text := by
  obtain ⟨blank, same, spaces⟩ := exists_eq_append_trimStart text
  have whole := congrArg lastVisible? same
  rw [lastVisible?_append, lastVisible?_eq_none_iff.mpr spaces, Option.or_none] at whole
  exact whole.symm

theorem getLast?_trimEnd (text : Text) : (trimEnd text).getLast? = lastVisible? text := by
  rw [trimEnd, List.getLast?_reverse, lastVisible?, List.find?_not_eq_head?_dropWhile]

theorem getLast?_trim (text : Text) : (trim text).getLast? = lastVisible? text := by
  rw [trim, getLast?_trimEnd, lastVisible?_trimStart]

theorem trim_eq_nil_iff {text : Text} : trim text = [] ↔ lastVisible? text = none := by
  rw [← getLast?_trim, List.getLast?_eq_none_iff]

/-- What is left of a text has the same first characters, as far as these are visible. -/
theorem isPrefix_trim_iff {text front : Text} (visible : ∀ c ∈ front, isSpace c = false) :
    front <+: trim text ↔ front <+: trimStart text := by
  constructor
  · intro start
    exact start.trans (isPrefix_trimEnd _)
  · rintro ⟨rest, same⟩
    rw [trim, ← same]
    clear same
    induction front with
    | nil => exact List.nil_prefix
    | cons c front ih =>
      rw [List.cons_append, trimEnd_cons (visible c (by simp)), List.cons_prefix_cons]
      exact ⟨rfl, ih fun d member => visible d (List.mem_cons_of_mem _ member)⟩

end Lipi.Text
