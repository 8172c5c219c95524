import Lipi.Proofs.Program.Normalization

/-!
# How the scan of a line ends

A line is scanned from left to right for the start of its comment. `scanEnd` is the state that this
scan ends in. Where no comment was found it is all that is needed to go on with the scan when the
line is made longer (`beforeComment_append_of_reached`), and where one was found nothing that comes
after it matters (`beforeComment_append_of_comment`).
-/

namespace Lipi.Text

/-- How the scan of a line ends: at a comment, at a backslash with nothing after it, or at the end
of the line in an open literal or in none. -/
inductive ScanEnd where
  | comment
  | backslash
  | reached (quote : Option Quote)
  deriving DecidableEq, Repr

/-- The end of the scan of a line, where `quote` is the literal that is open at its start. -/
def scanEnd (quote : Option Quote) : Text → ScanEnd
  | [] => .reached quote
  | c :: text =>
    if c = '\\' then
      match text with
      | [] => .backslash
      | _ :: rest => scanEnd quote rest
    else if quote = none ∧ c = '/' ∧ text.head? = some '/' then .comment
    else scanEnd (Quote.next quote c) text

theorem scanEnd_eq_comment_iff {quote : Option Quote} {line : Text} :
    scanEnd quote line = .comment ↔ beforeComment quote line ≠ line := by
  fun_induction scanEnd quote line with
  | case1 quote => simp [beforeComment]
  | case2 quote => simp [beforeComment]
  | case3 quote escaped rest ih => simp [beforeComment, ih]
  | case4 quote c text _ comment =>
    rw [beforeComment_comment comment.1 comment.2.1 comment.2.2]
    simp
  | case5 quote c text notEscape notComment ih =>
    rw [beforeComment_cons notEscape notComment, ih]
    simp

theorem beforeComment_append_of_comment {quote : Option Quote} {front : Text}
    (found : scanEnd quote front = .comment) (back : Text) :
    beforeComment quote (front ++ back) = beforeComment quote front := by
  fun_induction scanEnd quote front with
  | case1 quote => cases found
  | case2 quote => cases found
  | case3 quote escaped rest ih => simp [beforeComment, ih found]
  | case4 quote c text _ comment =>
    obtain ⟨rest, rfl⟩ := List.head?_eq_some_iff.mp comment.2.2
    rw [List.cons_append, beforeComment_comment comment.1 comment.2.1 rfl,
      beforeComment_comment comment.1 comment.2.1 rfl]
  | case5 quote c text notEscape notComment ih =>
    have first : text ≠ [] := by
      rintro rfl
      cases found
    obtain ⟨d, text, rfl⟩ := List.exists_cons_of_ne_nil first
    rw [List.cons_append, beforeComment_cons notEscape notComment, beforeComment_cons notEscape,
      ih found]
    exact notComment

/-- The scan goes on where it ended, unless the end of the line and what is added to it make up a
comment marker between them. -/
theorem beforeComment_append_of_reached {quote after : Option Quote} {front back : Text}
    (ends : scanEnd quote front = .reached after)
    (apart : front.getLast? = some '/' → back.head? ≠ some '/') :
    beforeComment quote (front ++ back) = front ++ beforeComment after back := by
  fun_induction scanEnd quote front with
  | case1 quote =>
    cases ends
    rfl
  | case2 quote => cases ends
  | case3 quote escaped rest ih =>
    have later : rest.getLast? = some '/' → back.head? ≠ some '/' := fun last =>
      apart (by simp [List.getLast?_cons, last])
    simp [beforeComment, ih ends later]
  | case4 quote c text _ comment => cases ends
  | case5 quote c text notEscape notComment ih =>
    have later : text.getLast? = some '/' → back.head? ≠ some '/' := fun last =>
      apart (by simp [List.getLast?_cons, last])
    have still : ¬ (quote = none ∧ c = '/' ∧ (text ++ back).head? = some '/') := by
      rintro ⟨outside, slash, second⟩
      cases text with
      | nil => exact apart (by simp [slash]) (by simpa using second)
      | cons d text => exact notComment ⟨outside, slash, by simpa using second⟩
    rw [List.cons_append, beforeComment_cons notEscape still, ih ends later, List.cons_append]

end Lipi.Text
