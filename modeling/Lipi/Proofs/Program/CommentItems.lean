import Mathlib.Data.List.Forall2
import Lipi.Proofs.Program.Normalization
import Lipi.Proofs.Text.Escapes

/-!
# Comments after complete items

A line is scanned with the literal that is open as the only state. Seen as a whole, what stands in
front of a comment is made of complete items: escaped characters, closed literals and other
characters. `Completes` says when a text leads the scan from a state to the end of an item, and
follows its steps. So a line is cut at the first marker that has only complete items in front of it
(`comment_after_items`).
-/

namespace Lipi

namespace Quote

/-- The character that opens a literal and closes it. -/
def mark : Quote → Char
  | single => '\''
  | double => '"'

theorem mark_ne_backslash (quote : Quote) : quote.mark ≠ '\\' := by
  cases quote <;> decide

theorem next_some (quote : Quote) (c : Char) :
    next (some quote) c = if c = quote.mark then none else some quote := by
  cases quote <;> rfl

theorem next_mark (quote : Quote) : next none quote.mark = some quote := by
  cases quote <;> rfl

theorem next_none_of_ne {c : Char} (other : ∀ quote : Quote, c ≠ quote.mark) :
    next none c = none := by
  have notSingle : c ≠ '\'' := other single
  have notDouble : c ≠ '"' := other double
  simp [next, notSingle, notDouble]

theorem mark_injective {quote other : Quote} (same : quote.mark = other.mark) : quote = other := by
  revert same
  cases quote <;> cases other <;> decide

end Quote

namespace Text

/-! ### Items -/

/-- A sequence of complete items. -/
inductive Items : Text → Prop
  | nil : Items []
  | escaped (c : Char) {rest : Text} : Items rest → Items ('\\' :: c :: rest)
  | literal (quote : Quote) {body rest : Text} : Guarded [quote.mark] body → Items rest →
      Items (quote.mark :: body ++ quote.mark :: rest)
  | plain {c : Char} {rest : Text} : c ≠ '\\' → (∀ quote : Quote, c ≠ quote.mark) → Items rest →
      Items (c :: rest)

/-- The text completes the literal that is open at its start, if one is, and goes on with complete
items. -/
def Completes : Option Quote → Text → Prop
  | none, text => Items text
  | some quote, text => ∃ rest, ClosedBy [quote.mark] quote.mark text rest ∧ Items rest

theorem completes_nil_iff {quote : Option Quote} : Completes quote [] ↔ quote = none := by
  cases quote with
  | none => simp [Completes, Items.nil]
  | some quote => simp [Completes, not_closedBy_nil]

/-- The first character tells which item comes first. -/
theorem items_cons_iff {c : Char} {rest : Text} :
    Items (c :: rest) ↔
      (c = '\\' ∧ ∃ d inner, rest = d :: inner ∧ Items inner) ∨
      (∃ quote : Quote, c = quote.mark ∧ Completes (some quote) rest) ∨
      (c ≠ '\\' ∧ (∀ quote : Quote, c ≠ quote.mark) ∧ Items rest) := by
  constructor
  · intro items
    cases items with
    | escaped d inner => exact .inl ⟨rfl, d, _, rfl, inner⟩
    | literal quote guarded inner => exact .inr (.inl ⟨quote, rfl, _, ⟨_, rfl, guarded⟩, inner⟩)
    | plain notEscape other inner => exact .inr (.inr ⟨notEscape, other, inner⟩)
  · rintro (⟨rfl, d, inner, rfl, items⟩ | ⟨quote, rfl, after, ⟨body, rfl, guarded⟩, items⟩ |
      ⟨notEscape, other, items⟩)
    · exact .escaped d items
    · exact .literal quote guarded items
    · exact .plain notEscape other items

/-- A backslash takes a character along, in a literal and outside. -/
theorem completes_backslash_iff {quote : Option Quote} {text : Text} :
    Completes quote ('\\' :: text) ↔ ∃ c rest, text = c :: rest ∧ Completes quote rest := by
  cases quote with
  | none =>
    constructor
    · intro items
      rcases items_cons_iff.mp items with ⟨-, escaped⟩ | ⟨quote, isMark, -⟩ | ⟨notEscape, -⟩
      · exact escaped
      · exact absurd isMark.symm quote.mark_ne_backslash
      · exact absurd rfl notEscape
    · rintro ⟨c, rest, rfl, items⟩
      exact .escaped c items
  | some quote =>
    simp only [Completes, closedBy_backslash_iff quote.mark_ne_backslash]
    constructor
    · rintro ⟨after, ⟨c, rest, rfl, closed⟩, items⟩
      exact ⟨c, rest, rfl, after, closed, items⟩
    · rintro ⟨c, rest, rfl, after, closed, items⟩
      exact ⟨after, ⟨c, rest, rfl, closed⟩, items⟩

/-- The scan keeps track of what is left to complete. -/
theorem completes_cons_iff {quote : Option Quote} {c : Char} {rest : Text} (notEscape : c ≠ '\\') :
    Completes quote (c :: rest) ↔ Completes (Quote.next quote c) rest := by
  cases quote with
  | some quote =>
    rw [Quote.next_some]
    by_cases closes : c = quote.mark
    · rw [if_pos closes]
      constructor
      · rintro ⟨after, closed, items⟩
        rcases (closedBy_cons_iff notEscape).mp closed with ⟨-, rfl⟩ | ⟨ordinary, -⟩
        · exact items
        · exact absurd (List.mem_singleton.mpr closes) ordinary
      · exact fun items => ⟨rest, (closedBy_cons_iff notEscape).mpr (.inl ⟨closes, rfl⟩), items⟩
    · rw [if_neg closes]
      refine exists_congr fun after => and_congr_left fun _ => ?_
      simp [closedBy_cons_iff notEscape, closes]
  | none =>
    change Items (c :: rest) ↔ _
    rw [items_cons_iff]
    by_cases opens : ∃ quote : Quote, c = quote.mark
    · obtain ⟨quote, rfl⟩ := opens
      rw [Quote.next_mark]
      constructor
      · rintro (⟨isEscape, -⟩ | ⟨other, same, inner⟩ | ⟨-, other, -⟩)
        · exact absurd isEscape notEscape
        · rwa [Quote.mark_injective same]
        · exact absurd rfl (other quote)
      · exact fun inner => .inr (.inl ⟨quote, rfl, inner⟩)
    · have other : ∀ quote : Quote, c ≠ quote.mark := fun quote same => opens ⟨quote, same⟩
      rw [Quote.next_none_of_ne other]
      constructor
      · rintro (⟨isEscape, -⟩ | ⟨quote, same, -⟩ | ⟨-, -, items⟩)
        · exact absurd isEscape notEscape
        · exact absurd same (other quote)
        · exact items
      · exact fun items => .inr (.inr ⟨notEscape, other, items⟩)

/-! ### The first comment -/

/-- A comment starts after `front`, which completes the literal that is open at the start of the
line, if one is. -/
def CommentAfter (quote : Option Quote) (line front : Text) : Prop :=
  Completes quote front ∧ ∃ rest, line = front ++ commentMarker ++ rest

/-- The line is cut at the first of its comments, or it has none. -/
def CutAt (quote : Option Quote) (line kept : Text) : Prop :=
  (CommentAfter quote line kept ∧
    ∀ other, CommentAfter quote line other → kept.length ≤ other.length) ∨
  (kept = line ∧ ∀ front, ¬ CommentAfter quote line front)

theorem CommentAfter.isPrefix {quote : Option Quote} {line front : Text}
    (comment : CommentAfter quote line front) : front <+: line := by
  obtain ⟨-, rest, rfl⟩ := comment
  exact ⟨commentMarker ++ rest, by simp⟩

theorem CutAt.unique {quote : Option Quote} {line kept other : Text} (cut : CutAt quote line kept)
    (cut' : CutAt quote line other) : kept = other := by
  rcases cut with ⟨comment, least⟩ | ⟨rfl, noComment⟩
  · rcases cut' with ⟨comment', least'⟩ | ⟨-, noComment'⟩
    · have size := Nat.le_antisymm (least other comment') (least' kept comment)
      have shared := List.prefix_of_prefix_length_le comment.isPrefix comment'.isPrefix size.le
      exact shared.eq_of_length size
    · exact absurd comment (noComment' kept)
  · rcases cut' with ⟨comment', -⟩ | ⟨rfl, -⟩
    · exact absurd comment' (noComment other)
    · rfl

/-- What all comments have in front of them has no part in the choice of the first one. -/
theorem CutAt.append {quote quote' : Option Quote} (start : Text) {line kept : Text}
    (step : ∀ front, CommentAfter quote (start ++ line) front ↔
      ∃ inner, front = start ++ inner ∧ CommentAfter quote' line inner)
    (cut : CutAt quote' line kept) : CutAt quote (start ++ line) (start ++ kept) := by
  rcases cut with ⟨comment, least⟩ | ⟨rfl, noComment⟩
  · refine .inl ⟨(step _).mpr ⟨kept, rfl, comment⟩, ?_⟩
    intro other comment'
    obtain ⟨inner, rfl, later⟩ := (step other).mp comment'
    have shorter := least inner later
    rw [List.length_append, List.length_append]
    omega
  · refine .inr ⟨rfl, ?_⟩
    intro front comment
    obtain ⟨inner, -, later⟩ := (step front).mp comment
    exact noComment inner later

theorem commentAfter_backslash_iff {quote : Option Quote} {c : Char} {line front : Text} :
    CommentAfter quote ('\\' :: c :: line) front ↔
      ∃ inner, front = '\\' :: c :: inner ∧ CommentAfter quote line inner := by
  constructor
  · rintro ⟨completes, rest, split⟩
    cases front with
    | nil => simp [commentMarker] at split
    | cons d front =>
      obtain ⟨rfl, afterBackslash⟩ := List.cons.inj split
      obtain ⟨e, inner, rfl, later⟩ := completes_backslash_iff.mp completes
      obtain ⟨rfl, tail⟩ := List.cons.inj afterBackslash
      exact ⟨inner, rfl, later, rest, tail⟩
  · rintro ⟨inner, rfl, completes, rest, rfl⟩
    exact ⟨completes_backslash_iff.mpr ⟨c, inner, rfl, completes⟩, rest, rfl⟩

theorem commentAfter_cons_iff {quote : Option Quote} {c : Char} {line front : Text}
    (notEscape : c ≠ '\\') (notComment : ¬ (quote = none ∧ c = '/' ∧ line.head? = some '/')) :
    CommentAfter quote (c :: line) front ↔
      ∃ inner, front = c :: inner ∧ CommentAfter (Quote.next quote c) line inner := by
  constructor
  · rintro ⟨completes, rest, split⟩
    cases front with
    | nil =>
      obtain ⟨rfl, rfl⟩ := List.cons.inj split
      exact absurd ⟨completes_nil_iff.mp completes, rfl, rfl⟩ notComment
    | cons d inner =>
      obtain ⟨rfl, tail⟩ := List.cons.inj split
      exact ⟨inner, rfl, (completes_cons_iff notEscape).mp completes, rest, tail⟩
  · rintro ⟨inner, rfl, completes, rest, rfl⟩
    exact ⟨(completes_cons_iff notEscape).mpr completes, rest, rfl⟩

theorem cutAt_beforeComment (quote : Option Quote) (line : Text) :
    CutAt quote line (beforeComment quote line) := by
  fun_induction beforeComment quote line with
  | case1 quote =>
    refine .inr ⟨rfl, ?_⟩
    rintro front ⟨-, rest, split⟩
    simp [commentMarker] at split
  | case2 quote =>
    -- the line is a single backslash, which is too short for a comment
    refine .inr ⟨rfl, ?_⟩
    rintro front ⟨-, rest, split⟩
    have size := congrArg List.length split
    simp [commentMarker] at size
    omega
  | case3 quote escaped rest ih =>
    exact CutAt.append ['\\', escaped] (fun _ => commentAfter_backslash_iff) ih
  | case4 quote c text _ comment =>
    obtain ⟨rest, rfl⟩ := List.head?_eq_some_iff.mp comment.2.2
    refine .inl ⟨⟨completes_nil_iff.mpr comment.1, rest, by rw [comment.2.1]; rfl⟩, ?_⟩
    intro other _
    exact Nat.zero_le _
  | case5 quote c text notEscape notComment ih =>
    exact CutAt.append [c] (fun _ => commentAfter_cons_iff notEscape notComment) ih

theorem forall₂_isPrefix_stripLine (pieces : List Text) :
    List.Forall₂ (· <+: ·) (pieces.map stripLine) pieces := by
  induction pieces with
  | nil => exact .nil
  | cons line pieces ih => exact .cons (isPrefix_stripLine line) ih

/-- A line is cut at the first comment marker that has only complete items in front of it. In a text
no line is lost or made longer by that, and nothing is left to cut. -/
theorem comment_after_items (line text : Text) :
    (∀ kept, stripLine line = kept ↔
      (CommentAfter none line kept ∧
        ∀ other, CommentAfter none line other → kept.length ≤ other.length) ∨
      (kept = line ∧ ∀ front, ¬ CommentAfter none line front)) ∧
    (lines (stripComments text)).length = (lines text).length ∧
    List.Forall₂ (· <+: ·) (lines (stripComments text)) (lines text) ∧
    stripComments (stripComments text) = stripComments text := by
  have pieces : lines (stripComments text) = (lines text).map stripLine :=
    lines_mapLines newline_not_mem_stripLine text
  refine ⟨fun kept => ⟨?_, ?_⟩, ?_, ?_, ?_⟩
  · rintro rfl
    exact cutAt_beforeComment none line
  · exact fun cut => (cutAt_beforeComment none line).unique cut
  · rw [pieces, List.length_map]
  · rw [pieces]
    exact forall₂_isPrefix_stripLine (lines text)
  · apply mapLines_eq_self
    intro kept member
    rw [pieces] at member
    obtain ⟨original, -, rfl⟩ := List.mem_map.mp member
    exact stripLine_stripLine original

end Text

end Lipi
