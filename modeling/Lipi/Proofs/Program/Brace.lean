import Lipi.Program.Brace
import Lipi.Proofs.Text.Balance

/-!
# Matching braces

The check of braces keeps the offsets of open braces, but whether it passes depends on their number
alone: it passes exactly the texts with balanced braces. In any other text it stops at an
`UnmatchedBrace`, which is told by the braces before and after it (`checkBraces_eq_error_iff`).
-/

namespace Lipi.Text

theorem braceFault?_opening (offset : Nat) (opened : List Nat) (text : Text) :
    braceFault? offset opened ('{' :: text) =
      braceFault? (offset + ('{' : Char).utf8Size) (offset :: opened) text := by
  rw [braceFault?.eq_def]
  rfl

theorem braceFault?_closing (offset innermost : Nat) (outer : List Nat) (text : Text) :
    braceFault? offset (innermost :: outer) ('}' :: text) =
      braceFault? (offset + ('}' : Char).utf8Size) outer text := by
  rw [braceFault?.eq_def]
  rfl

theorem braceFault?_other {c : Char} (notOpening : c ≠ '{') (notClosing : c ≠ '}')
    (offset : Nat) (opened : List Nat) (text : Text) :
    braceFault? offset opened (c :: text) = braceFault? (offset + c.utf8Size) opened text := by
  rw [braceFault?.eq_def]
  simp only [if_neg notOpening, if_neg notClosing]

/-! ### The brace without a partner -/

/-- The brace after `before` is the one that the check of the text stops at: a closing brace with
nothing open before it, or else the last opening brace that stays open. -/
inductive UnmatchedBrace : (fault : Fault) → (before text : Text) → Prop where
  | closing {before : Text} (after : Text) : Balanced '{' '}' before →
      UnmatchedBrace .unmatchedClosing before (before ++ '}' :: after)
  | opening {before after : Text} {depth : Nat} : depthAfter? '{' '}' 0 before = some depth →
      Balanced '{' '}' after → UnmatchedBrace .unmatchedOpening before (before ++ '{' :: after)

theorem UnmatchedBrace.isPrefix {fault : Fault} {before text : Text}
    (unmatched : UnmatchedBrace fault before text) : before <+: text := by
  cases unmatched <;> exact List.prefix_append _ _

theorem braceFault?_balanced {inside : Text} (balanced : Balanced '{' '}' inside) (offset : Nat)
    (opened : List Nat) (rest : Text) :
    braceFault? offset opened (inside ++ rest) =
      braceFault? (offset + byteLength inside) opened rest := by
  induction balanced generalizing offset opened rest with
  | nil => rfl
  | other notOpening notClosing _ ih =>
    rw [List.cons_append, braceFault?_other notOpening notClosing, ih, byteLength_cons, Nat.add_assoc]
  | @group inside outside _ _ inner outer =>
    have whole : '{' :: inside ++ '}' :: outside ++ rest =
        '{' :: (inside ++ '}' :: (outside ++ rest)) := by simp
    rw [whole, braceFault?_opening, inner, braceFault?_closing, outer]
    simp [Nat.add_assoc]

/-- A part that closes no brace too many is passed over. -/
theorem exists_braceFault?_append (front : Text) (offset : Nat) (opened : List Nat) {depth : Nat}
    (scanned : depthAfter? '{' '}' opened.length front = some depth) :
    ∃ reached, ∀ back, braceFault? offset opened (front ++ back) =
      braceFault? (offset + byteLength front) reached back := by
  induction front generalizing offset opened with
  | nil => exact ⟨opened, fun back => rfl⟩
  | cons c front ih =>
    simp only [List.cons_append, byteLength_cons, ← Nat.add_assoc]
    by_cases isOpening : c = '{'
    · subst isOpening
      rw [depthAfter?_opening] at scanned
      simp only [braceFault?_opening]
      exact ih _ _ scanned
    · by_cases isClosing : c = '}'
      · subst isClosing
        cases opened with
        | nil =>
          rw [List.length_nil, depthAfter?_closing_zero (by decide)] at scanned
          cases scanned
        | cons innermost outer =>
          rw [List.length_cons, depthAfter?_closing (by decide)] at scanned
          simp only [braceFault?_closing]
          exact ih _ _ scanned
      · rw [depthAfter?_other isOpening isClosing] at scanned
        simp only [braceFault?_other isOpening isClosing]
        exact ih _ _ scanned

theorem braceFault?_of_unmatchedBrace {fault : Fault} {before text : Text}
    (unmatched : UnmatchedBrace fault before text) :
    braceFault? 0 [] text = some (fault, byteLength before) := by
  cases unmatched with
  | closing after balanced =>
    rw [braceFault?_balanced balanced]
    simp [braceFault?]
  | @opening _ after depth scanned balanced =>
    obtain ⟨reached, past⟩ := exists_braceFault?_append before 0 [] scanned
    have closed := braceFault?_balanced balanced (0 + byteLength before + ('{' : Char).utf8Size)
      ((0 + byteLength before) :: reached) []
    rw [List.append_nil] at closed
    rw [past, braceFault?_opening, closed]
    simp [braceFault?]

theorem UnmatchedBrace.closing_append {before text : Text}
    (unmatched : UnmatchedBrace .unmatchedClosing before text) (back : Text) :
    UnmatchedBrace .unmatchedClosing before (text ++ back) := by
  cases unmatched with
  | closing after closed => simpa using UnmatchedBrace.closing (after ++ back) closed

theorem UnmatchedBrace.append {fault : Fault} {before text back : Text}
    (unmatched : UnmatchedBrace fault before text) (balanced : Balanced '{' '}' back) :
    UnmatchedBrace fault before (text ++ back) := by
  cases unmatched with
  | closing after closed => exact (UnmatchedBrace.closing after closed).closing_append back
  | opening scanned closed => simpa using UnmatchedBrace.opening scanned (closed.append balanced)

theorem depthAfter?_of_opening {before after : Text} {depth : Nat}
    (scanned : depthAfter? '{' '}' 0 before = some depth) (closed : Balanced '{' '}' after) :
    depthAfter? '{' '}' 0 (before ++ '{' :: after) = some (depth + 1) := by
  rw [depthAfter?_append, scanned, Option.bind_some, depthAfter?_opening,
    closed.depthAfter? (by decide)]

theorem UnmatchedBrace.exists_opening {fault : Fault} {before text : Text}
    (unmatched : UnmatchedBrace fault before text) :
    ∃ fault before, UnmatchedBrace fault before (text ++ ['{']) := by
  cases unmatched with
  | closing after closed =>
    exact ⟨_, _, (UnmatchedBrace.closing after closed).closing_append ['{']⟩
  | opening scanned closed => exact ⟨_, _, .opening (depthAfter?_of_opening scanned closed) .nil⟩

theorem balanced_or_exists_unmatchedBrace (text : Text) :
    Balanced '{' '}' text ∨ ∃ fault before, UnmatchedBrace fault before text := by
  -- A brace at the end can close the one that had no partner so far. Then the text before that
  -- one decides, so the induction is on the length.
  induction size : text.length using Nat.strongRecOn generalizing text with
  | ind n ih =>
    subst size
    rcases List.eq_nil_or_concat text with rfl | ⟨front, c, rfl⟩
    · exact .inl .nil
    · rw [List.concat_eq_append]
      have shorter := ih front.length (by simp) front rfl
      by_cases isOpening : c = '{'
      · subst isOpening
        rcases shorter with balanced | ⟨fault, before, unmatched⟩
        · exact .inr ⟨_, front, .opening (balanced.depthAfter? (by decide) 0) .nil⟩
        · exact .inr unmatched.exists_opening
      · by_cases isClosing : c = '}'
        · subst isClosing
          rcases shorter with balanced | ⟨fault, before, unmatched⟩
          · exact .inr ⟨_, front, .closing [] balanced⟩
          · cases unmatched with
            | closing after closed =>
              exact .inr ⟨_, before, (UnmatchedBrace.closing after closed).closing_append ['}']⟩
            | @opening _ after depth scanned closed =>
              have group : Balanced '{' '}' ('{' :: after ++ ['}']) := .group closed .nil
              have split : before ++ '{' :: after ++ ['}'] = before ++ ('{' :: after ++ ['}']) := by
                simp
              rw [split]
              rcases ih before.length (by simp) before rfl with outer | ⟨fault, earlier, outer⟩
              · exact .inl (outer.append group)
              · exact .inr ⟨fault, earlier, outer.append group⟩
        · have plain : Balanced '{' '}' [c] := .other isOpening isClosing .nil
          rcases shorter with balanced | ⟨fault, before, unmatched⟩
          · exact .inl (balanced.append plain)
          · exact .inr ⟨fault, before, unmatched.append plain⟩

theorem checkBraces_of_unmatchedBrace {fault : Fault} {before text : Text}
    (unmatched : UnmatchedBrace fault before text) :
    checkBraces text = .error (.locate fault text (byteLength before)) := by
  simp [checkBraces, braceFault?_of_unmatchedBrace unmatched]

theorem checkBraces_eq_ok_iff {text : Text} : checkBraces text = .ok () ↔ Balanced '{' '}' text := by
  constructor
  · intro passed
    rcases balanced_or_exists_unmatchedBrace text with balanced | ⟨fault, before, unmatched⟩
    · exact balanced
    · rw [checkBraces_of_unmatchedBrace unmatched] at passed
      cases passed
  · intro balanced
    have scan := braceFault?_balanced balanced 0 [] []
    rw [List.append_nil] at scan
    simp [checkBraces, scan, braceFault?]

theorem checkBraces_eq_error_iff {text : Text} {rejection : Rejection} :
    checkBraces text = .error rejection ↔
      ∃ fault before, UnmatchedBrace fault before text ∧
        rejection = .locate fault text (byteLength before) := by
  constructor
  · intro failed
    rcases balanced_or_exists_unmatchedBrace text with balanced | ⟨fault, before, unmatched⟩
    · rw [checkBraces_eq_ok_iff.mpr balanced] at failed
      cases failed
    · rw [checkBraces_of_unmatchedBrace unmatched] at failed
      cases failed
      exact ⟨fault, before, unmatched, rfl⟩
  · rintro ⟨fault, before, unmatched, rfl⟩
    exact checkBraces_of_unmatchedBrace unmatched

end Lipi.Text
