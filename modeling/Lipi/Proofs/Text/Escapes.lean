import Lipi.Text.Basic

/-!
# Guarded texts

A text is guarded against some characters if these stand in it only behind a backslash. The inside
of a literal is guarded against the literal's mark, and a condition against parentheses, so neither
of them ends early. `ClosedBy` is such a text up to the character that ends it, and can be read from
left to right (`closedBy_backslash_iff`, `closedBy_cons_iff`).
-/

namespace Lipi.Text

/-- Pairs of a backslash with any character, and characters that are neither a backslash nor one of
the special ones. -/
inductive Guarded (special : List Char) : Text → Prop
  | nil : Guarded special []
  | escaped (c : Char) {rest : Text} : Guarded special rest → Guarded special ('\\' :: c :: rest)
  | plain {c : Char} {rest : Text} : c ≠ '\\' → c ∉ special → Guarded special rest →
      Guarded special (c :: rest)

variable {special : List Char}

theorem not_guarded_backslash : ¬ Guarded special ['\\'] := by
  intro guarded
  cases guarded with
  | plain notEscape _ _ => exact notEscape rfl

theorem guarded_escaped_iff {c : Char} {rest : Text} :
    Guarded special ('\\' :: c :: rest) ↔ Guarded special rest := by
  constructor
  · intro guarded
    cases guarded with
    | escaped _ inner => exact inner
    | plain notEscape _ _ => exact absurd rfl notEscape
  · exact .escaped c

theorem guarded_cons_iff {c : Char} {rest : Text} (notEscape : c ≠ '\\') :
    Guarded special (c :: rest) ↔ c ∉ special ∧ Guarded special rest := by
  constructor
  · intro guarded
    cases guarded with
    | escaped _ _ => exact absurd rfl notEscape
    | plain _ ordinary inner => exact ⟨ordinary, inner⟩
  · rintro ⟨ordinary, inner⟩
    exact .plain notEscape ordinary inner

/-- The text is a guarded part, the character that closes it, and `rest`. -/
def ClosedBy (special : List Char) (close : Char) (text rest : Text) : Prop :=
  ∃ body, text = body ++ close :: rest ∧ Guarded special body

variable {close : Char}

theorem not_closedBy_nil {rest : Text} : ¬ ClosedBy special close [] rest := by
  rintro ⟨body, split, -⟩
  simp at split

theorem closedBy_backslash_iff {text rest : Text} (visible : close ≠ '\\') :
    ClosedBy special close ('\\' :: text) rest ↔
      ∃ c inner, text = c :: inner ∧ ClosedBy special close inner rest := by
  constructor
  · rintro ⟨body, split, guarded⟩
    cases body with
    | nil => exact absurd (List.cons.inj split).1.symm visible
    | cons d body =>
      obtain ⟨rfl, rfl⟩ := List.cons.inj split
      cases body with
      | nil => exact absurd guarded not_guarded_backslash
      | cons c body => exact ⟨c, _, rfl, body, rfl, guarded_escaped_iff.mp guarded⟩
  · rintro ⟨c, inner, rfl, body, rfl, guarded⟩
    exact ⟨'\\' :: c :: body, rfl, .escaped c guarded⟩

theorem closedBy_cons_iff {c : Char} {text rest : Text} (notEscape : c ≠ '\\') :
    ClosedBy special close (c :: text) rest ↔
      (c = close ∧ text = rest) ∨ (c ∉ special ∧ ClosedBy special close text rest) := by
  constructor
  · rintro ⟨body, split, guarded⟩
    cases body with
    | nil => exact .inl (List.cons.inj split)
    | cons d body =>
      obtain ⟨rfl, rfl⟩ := List.cons.inj split
      obtain ⟨ordinary, inner⟩ := (guarded_cons_iff notEscape).mp guarded
      exact .inr ⟨ordinary, body, rfl, inner⟩
  · rintro (⟨rfl, rfl⟩ | ⟨ordinary, body, rfl, guarded⟩)
    · exact ⟨[], rfl, .nil⟩
    · exact ⟨c :: body, rfl, .plain notEscape ordinary guarded⟩

end Lipi.Text
