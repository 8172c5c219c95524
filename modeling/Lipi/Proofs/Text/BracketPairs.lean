import Lipi.Proofs.Text.Balance

/-!
# Pairs of brackets

In any text, balanced or not, brackets are paired by a stack: a closing bracket belongs to the
innermost one that is open, and to none if nothing is open. `bracketPairs` is the list of these
pairs, each by its two places. What stands between the two brackets of a pair opens and closes by
itself (`mem_bracketPairs_append_iff`), and a text closes a bracket that was open before it exactly
if the count of open brackets has no answer (`exists_closedAt_iff`).
-/

namespace Lipi.Text

/-- The pairs of brackets that are completed in a text. The text starts at `place`, and `opened` are
the places of the brackets that are open there, the innermost first. -/
def bracketPairs (opening closing : Char) (place : Nat) (opened : List Nat) :
    Text → List (Nat × Nat)
  | [] => []
  | c :: text =>
    if c = opening then bracketPairs opening closing (place + 1) (place :: opened) text
    else if c = closing then
      match opened with
      | [] => bracketPairs opening closing (place + 1) [] text
      | innermost :: outer =>
        (innermost, place) :: bracketPairs opening closing (place + 1) outer text
    else bracketPairs opening closing (place + 1) opened text

/-- A text that starts at `place` closes at `close` a bracket that was open before it, with `depth`
open brackets inside. -/
def ClosedAt (opening closing : Char) (place depth : Nat) (text : Text) (close : Nat) : Prop :=
  ∃ inside rest, text = inside ++ closing :: rest ∧
    depthAfter? opening closing depth inside = some 0 ∧ close = place + inside.length

/-- A text that starts at `place` has a bracket at `first` and closes it at `close`. -/
def PairAt (opening closing : Char) (place : Nat) (text : Text) (first close : Nat) : Prop :=
  ∃ head rest, text = head ++ opening :: rest ∧ first = place + head.length ∧
    ClosedAt opening closing (first + 1) 0 rest close

section Pairs

variable {opening closing : Char} {place depth close : Nat} {text : Text}

/-! ### One character -/

theorem closedAt_cons {c : Char} :
    ClosedAt opening closing place depth (c :: text) close ↔
      (c = closing ∧ depth = 0 ∧ close = place) ∨
        ∃ next, depthAfter? opening closing depth [c] = some next ∧
          ClosedAt opening closing (place + 1) next text close := by
  constructor
  · rintro ⟨inside, rest, same, closed, rfl⟩
    cases inside with
    | nil =>
      cases same
      cases closed
      exact .inl ⟨rfl, rfl, rfl⟩
    | cons d inside =>
      cases same
      rw [depthAfter?_cons] at closed
      obtain ⟨next, step, closed⟩ := Option.bind_eq_some_iff.mp closed
      refine .inr ⟨next, step, inside, rest, rfl, closed, ?_⟩
      rw [List.length_cons]
      omega
  · rintro (⟨rfl, rfl, rfl⟩ | ⟨next, step, inside, rest, rfl, closed, rfl⟩)
    · exact ⟨[], text, rfl, rfl, rfl⟩
    · refine ⟨c :: inside, rest, rfl, ?_, ?_⟩
      · rw [depthAfter?_cons, step, Option.bind_some, closed]
      · rw [List.length_cons]
        omega

theorem closedAt_opening (distinct : opening ≠ closing) :
    ClosedAt opening closing place depth (opening :: text) close ↔
      ClosedAt opening closing (place + 1) (depth + 1) text close := by
  simp [closedAt_cons, distinct]

theorem closedAt_closing (distinct : opening ≠ closing) :
    ClosedAt opening closing place (depth + 1) (closing :: text) close ↔
      ClosedAt opening closing (place + 1) depth text close := by
  simp [closedAt_cons, depthAfter?_closing distinct]

theorem closedAt_closing_zero (distinct : opening ≠ closing) :
    ClosedAt opening closing place 0 (closing :: text) close ↔ close = place := by
  simp [closedAt_cons, depthAfter?_closing_zero distinct]

theorem closedAt_other {c : Char} (notOpening : c ≠ opening) (notClosing : c ≠ closing) :
    ClosedAt opening closing place depth (c :: text) close ↔
      ClosedAt opening closing (place + 1) depth text close := by
  simp [closedAt_cons, depthAfter?_other notOpening notClosing, notClosing]

theorem pairAt_cons {c : Char} {first : Nat} :
    PairAt opening closing place (c :: text) first close ↔
      (c = opening ∧ first = place ∧ ClosedAt opening closing (place + 1) 0 text close) ∨
        PairAt opening closing (place + 1) text first close := by
  constructor
  · rintro ⟨head, rest, same, rfl, closed⟩
    cases head with
    | nil =>
      cases same
      exact .inl ⟨rfl, rfl, closed⟩
    | cons d head =>
      cases same
      refine .inr ⟨head, rest, rfl, ?_, closed⟩
      rw [List.length_cons]
      omega
  · rintro (⟨rfl, rfl, closed⟩ | ⟨head, rest, rfl, rfl, closed⟩)
    · exact ⟨[], text, rfl, rfl, closed⟩
    · refine ⟨c :: head, rest, rfl, ?_, closed⟩
      rw [List.length_cons]
      omega

/-! ### Whole texts -/

theorem exists_closedAt_iff (distinct : opening ≠ closing) :
    (∃ close, ClosedAt opening closing place depth text close) ↔
      depthAfter? opening closing depth text = none := by
  induction text generalizing place depth with
  | nil => simp [ClosedAt]
  | cons c text ih =>
    by_cases isOpening : c = opening
    · subst isOpening
      simp only [closedAt_opening distinct, depthAfter?_opening, ih]
    · by_cases isClosing : c = closing
      · subst isClosing
        cases depth with
        | zero => simp [closedAt_closing_zero distinct, depthAfter?_closing_zero distinct]
        | succ depth => simp only [closedAt_closing distinct, depthAfter?_closing distinct, ih]
      · simp only [closedAt_other isOpening isClosing, depthAfter?_other isOpening isClosing, ih]

/-- What the start of a text closes is what the whole text closes there. -/
theorem closedAt_append_iff (front back : Text) :
    ClosedAt opening closing place depth (front ++ back) close ∧ close < place + front.length ↔
      ClosedAt opening closing place depth front close := by
  constructor
  · rintro ⟨⟨inside, rest, same, closed, rfl⟩, short⟩
    have shorter : inside.length < front.length := by omega
    rcases List.append_eq_append_iff.mp same with ⟨extra, long, -⟩ | ⟨extra, split, tails⟩
    · rw [long, List.length_append] at shorter
      omega
    · cases extra with
      | nil => simp [split] at shorter
      | cons c extra =>
        cases tails
        exact ⟨inside, extra, split, closed, rfl⟩
  · rintro ⟨inside, rest, rfl, closed, rfl⟩
    refine ⟨⟨inside, rest ++ back, by simp, closed, rfl⟩, ?_⟩
    simp only [List.length_append, List.length_cons]
    omega

/-- A pair is completed by a bracket that was open before the text, or both of its brackets are in
the text. -/
theorem mem_bracketPairs_cases (distinct : opening ≠ closing) {opened : List Nat} {first : Nat} :
    (first, close) ∈ bracketPairs opening closing place opened text ↔
      (∃ depth, opened[depth]? = some first ∧ ClosedAt opening closing place depth text close) ∨
        PairAt opening closing place text first close := by
  fun_induction bracketPairs opening closing place opened text with
  | case1 place opened => simp [ClosedAt, PairAt]
  | case2 place opened text ih =>
    rw [ih, pairAt_cons]
    -- The new bracket is the innermost one, and moves the others one place outwards.
    constructor
    · rintro (⟨depth, entry, closed⟩ | within)
      · cases depth with
        | zero =>
          cases entry
          exact .inr (.inl ⟨rfl, rfl, closed⟩)
        | succ depth => exact .inl ⟨depth, entry, (closedAt_opening distinct).mpr closed⟩
      · exact .inr (.inr within)
    · rintro (⟨depth, entry, closed⟩ | ⟨-, rfl, closed⟩ | within)
      · exact .inl ⟨depth + 1, entry, (closedAt_opening distinct).mp closed⟩
      · exact .inl ⟨0, rfl, closed⟩
      · exact .inr within
  | case3 place text _ ih =>
    rw [ih, pairAt_cons]
    simp [distinct.symm]
  | case4 place text _ innermost outer ih =>
    rw [List.mem_cons, ih, pairAt_cons]
    constructor
    · rintro (pair | ⟨depth, entry, closed⟩ | within)
      · cases pair
        exact .inl ⟨0, rfl, (closedAt_closing_zero distinct).mpr rfl⟩
      · exact .inl ⟨depth + 1, entry, (closedAt_closing distinct).mpr closed⟩
      · exact .inr (.inr within)
    · rintro (⟨depth, entry, closed⟩ | ⟨same, -⟩ | within)
      · cases depth with
        | zero =>
          cases entry
          rw [(closedAt_closing_zero distinct).mp closed]
          exact .inl rfl
        | succ depth => exact .inr (.inl ⟨depth, entry, (closedAt_closing distinct).mp closed⟩)
      · exact absurd same.symm distinct
      · exact .inr (.inr within)
  | case5 place opened c text notOpening notClosing ih =>
    rw [ih, pairAt_cons]
    simp [closedAt_other notOpening notClosing, notOpening]

/-- The bracket after `head` is paired where the text after it closes it. -/
theorem mem_bracketPairs_append_iff (distinct : opening ≠ closing) (head rest : Text) :
    (head.length, close) ∈ bracketPairs opening closing 0 [] (head ++ opening :: rest) ↔
      ClosedAt opening closing (head.length + 1) 0 rest close := by
  rw [mem_bracketPairs_cases distinct]
  constructor
  · rintro (⟨depth, entry, -⟩ | ⟨head', rest', same, size, closed⟩)
    · cases entry
    · rw [Nat.zero_add] at size
      obtain ⟨rfl, tails⟩ := List.append_inj same size
      cases tails
      exact closed
  · exact fun closed => .inr ⟨head, rest, rfl, (Nat.zero_add _).symm, closed⟩

end Pairs

example : bracketPairs '{' '}' 0 [] ['}', '{', '{', '}'] = [(2, 3)] := rfl

end Lipi.Text
