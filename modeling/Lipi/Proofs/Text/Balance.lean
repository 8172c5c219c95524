import Lipi.Text.Basic

/-!
# Balanced texts

A pair of brackets is balanced in a text if each of them has a partner. `Balanced` says so by the
form of the text, and `depthAfter?` by counting open brackets from left to right. The two agree
(`balanced_iff_depthAfter?`), and a text that closes everything closes each bracket at a place of
its own (`exists_closing_of_depthAfter?`).
-/

namespace Lipi.Text

/-- Every opening bracket has its closing one, with a balanced text between them. -/
inductive Balanced (opening closing : Char) : Text → Prop where
  | nil : Balanced opening closing []
  | other {c : Char} {text : Text} : c ≠ opening → c ≠ closing → Balanced opening closing text →
      Balanced opening closing (c :: text)
  | group {inside rest : Text} : Balanced opening closing inside → Balanced opening closing rest →
      Balanced opening closing (opening :: inside ++ closing :: rest)

/-- How many brackets are open after a text if `depth` are open before it. There is no answer if
one is closed that was not open. -/
def depthAfter? (opening closing : Char) : (depth : Nat) → Text → Option Nat
  | depth, [] => some depth
  | depth, c :: text =>
    if c = opening then depthAfter? opening closing (depth + 1) text
    else if c = closing then
      match depth with
      | 0 => none
      | outer + 1 => depthAfter? opening closing outer text
    else depthAfter? opening closing depth text

section Depth

variable {opening closing : Char}

@[simp]
theorem depthAfter?_nil (depth : Nat) : depthAfter? opening closing depth [] = some depth := rfl

@[simp]
theorem depthAfter?_opening (depth : Nat) (text : Text) :
    depthAfter? opening closing depth (opening :: text) =
      depthAfter? opening closing (depth + 1) text := by
  simp [depthAfter?]

theorem depthAfter?_other {c : Char} (notOpening : c ≠ opening) (notClosing : c ≠ closing)
    (depth : Nat) (text : Text) :
    depthAfter? opening closing depth (c :: text) = depthAfter? opening closing depth text := by
  simp [depthAfter?, notOpening, notClosing]

theorem depthAfter?_closing (distinct : opening ≠ closing) (depth : Nat) (text : Text) :
    depthAfter? opening closing (depth + 1) (closing :: text) =
      depthAfter? opening closing depth text := by
  simp [depthAfter?, distinct.symm]

theorem depthAfter?_closing_zero (distinct : opening ≠ closing) (text : Text) :
    depthAfter? opening closing 0 (closing :: text) = none := by
  simp [depthAfter?, distinct.symm]

theorem depthAfter?_append (depth : Nat) (front back : Text) :
    depthAfter? opening closing depth (front ++ back) =
      (depthAfter? opening closing depth front).bind (depthAfter? opening closing · back) := by
  fun_induction depthAfter? opening closing depth front with
  | case1 depth => simp
  | case2 depth text ih => simpa using ih
  | case3 text distinct => simp [depthAfter?, distinct]
  | case4 text outer distinct ih =>
    rw [List.cons_append, depthAfter?_closing (Ne.symm distinct), ih]
  | case5 depth c text notOpening notClosing ih =>
    rw [List.cons_append, depthAfter?_other notOpening notClosing, ih]

theorem depthAfter?_cons (depth : Nat) (c : Char) (text : Text) :
    depthAfter? opening closing depth (c :: text) =
      (depthAfter? opening closing depth [c]).bind (depthAfter? opening closing · text) :=
  depthAfter?_append depth [c] text

theorem depthAfter?_add {depth after : Nat} {text : Text}
    (closed : depthAfter? opening closing depth text = some after) (around : Nat) :
    depthAfter? opening closing (around + depth) text = some (around + after) := by
  fun_induction depthAfter? opening closing depth text with
  | case1 depth => simp_all
  | case2 depth text ih => rw [depthAfter?_opening, Nat.add_assoc, ih closed]
  | case3 text distinct => cases closed
  | case4 text outer distinct ih =>
    rw [Nat.add_succ, depthAfter?_closing (Ne.symm distinct), ih closed]
  | case5 depth c text notOpening notClosing ih =>
    rw [depthAfter?_other notOpening notClosing, ih closed]

/-- A text that closes `around + 1` brackets more than its first `depth` ones closes the first of
them after a part that closes these `depth`. -/
theorem exists_closing_of_depthAfter? (around depth : Nat) {text : Text}
    (closed : depthAfter? opening closing (around + 1 + depth) text = some 0) :
    ∃ inside rest, text = inside ++ closing :: rest ∧
      depthAfter? opening closing depth inside = some 0 := by
  induction text generalizing depth with
  | nil =>
    rw [depthAfter?_nil, Option.some.injEq] at closed
    omega
  | cons c text ih =>
    by_cases isOpening : c = opening
    · subst isOpening
      rw [depthAfter?_opening, Nat.add_assoc] at closed
      obtain ⟨inside, rest, rfl, deeper⟩ := ih _ closed
      exact ⟨c :: inside, rest, rfl, by rwa [depthAfter?_opening]⟩
    · by_cases isClosing : c = closing
      · subst isClosing
        have distinct : opening ≠ c := Ne.symm isOpening
        cases depth with
        | zero => exact ⟨[], text, rfl, rfl⟩
        | succ depth =>
          rw [← Nat.add_assoc, depthAfter?_closing distinct] at closed
          obtain ⟨inside, rest, rfl, higher⟩ := ih _ closed
          exact ⟨c :: inside, rest, rfl, by rwa [depthAfter?_closing distinct]⟩
      · rw [depthAfter?_other isOpening isClosing] at closed
        obtain ⟨inside, rest, rfl, same⟩ := ih _ closed
        exact ⟨c :: inside, rest, rfl, by rwa [depthAfter?_other isOpening isClosing]⟩

theorem Balanced.depthAfter? {text : Text} (distinct : opening ≠ closing)
    (balanced : Balanced opening closing text) (depth : Nat) :
    Text.depthAfter? opening closing depth text = some depth := by
  induction balanced generalizing depth with
  | nil => rfl
  | other notOpening notClosing _ ih => rw [depthAfter?_other notOpening notClosing, ih]
  | group _ _ inner outer =>
    rw [List.cons_append, depthAfter?_opening, depthAfter?_append, inner, Option.bind_some,
      depthAfter?_closing distinct, outer]

theorem Balanced.append {front back : Text} (first : Balanced opening closing front)
    (second : Balanced opening closing back) : Balanced opening closing (front ++ back) := by
  induction first with
  | nil => exact second
  | other notOpening notClosing _ ih => exact .other notOpening notClosing ih
  | group inner _ _ outer => simpa using Balanced.group inner outer

theorem balanced_of_depthAfter? (distinct : opening ≠ closing) {text : Text}
    (closed : depthAfter? opening closing 0 text = some 0) : Balanced opening closing text := by
  induction size : text.length using Nat.strongRecOn generalizing text with
  | ind n ih =>
    subst size
    cases text with
    | nil => exact .nil
    | cons c text =>
      by_cases isOpening : c = opening
      · subst isOpening
        rw [depthAfter?_opening] at closed
        obtain ⟨inside, rest, rfl, inner⟩ := exists_closing_of_depthAfter? 0 0 closed
        have outer : depthAfter? c closing 0 rest = some 0 := by
          have raised := depthAfter?_add inner 1
          rwa [depthAfter?_append, raised, Option.bind_some, depthAfter?_closing distinct] at closed
        have insideShorter : inside.length < (c :: (inside ++ closing :: rest)).length := by
          simp only [List.length_cons, List.length_append]
          omega
        have restShorter : rest.length < (c :: (inside ++ closing :: rest)).length := by
          simp only [List.length_cons, List.length_append]
          omega
        exact .group (ih _ insideShorter inner rfl) (ih _ restShorter outer rfl)
      · by_cases isClosing : c = closing
        · subst isClosing
          rw [depthAfter?_closing_zero distinct] at closed
          cases closed
        · rw [depthAfter?_other isOpening isClosing] at closed
          exact .other isOpening isClosing (ih _ (by simp) closed rfl)

theorem balanced_iff_depthAfter? (distinct : opening ≠ closing) {text : Text} :
    Balanced opening closing text ↔ depthAfter? opening closing 0 text = some 0 :=
  ⟨fun balanced => balanced.depthAfter? distinct 0, balanced_of_depthAfter? distinct⟩

end Depth

end Lipi.Text
