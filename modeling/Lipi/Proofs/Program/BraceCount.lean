import Lipi.Proofs.Program.FaultPlace
import Lipi.Proofs.Text.BracketPairs

/-!
# Counting braces

The check of braces keeps the offsets of the braces that are open. What it answers can be told from
numbers of braces alone: a text passes if no start of it has more closing than opening braces and
the whole has as many of both. Otherwise the check points at the end of the shortest start with too
many closing braces, or else at the last brace after which the excess of opening braces stays above
what it was before (`braces_refused_by_counts`).
-/

namespace Lipi.Text

/-! ### The excess of opening brackets -/

/-- How many more opening than closing brackets a text has. -/
def excess (opening closing : Char) (text : Text) : Int :=
  text.count opening - text.count closing

theorem forall_isPrefix_cons {p : Text → Prop} {c : Char} {text : Text} :
    (∀ front, front <+: c :: text → p front) ↔ p [] ∧ ∀ front, front <+: text → p (c :: front) := by
  constructor
  · intro every
    refine ⟨every [] List.nil_prefix, ?_⟩
    intro front start
    exact every (c :: front) (List.cons_prefix_cons.mpr ⟨rfl, start⟩)
  · rintro ⟨empty, every⟩ front start
    rcases List.prefix_cons_iff.mp start with rfl | ⟨rest, rfl, inside⟩
    · exact empty
    · exact every rest inside

section Excess

variable {opening closing : Char}

@[simp]
theorem excess_nil : excess opening closing [] = 0 := by
  simp [excess]

@[simp]
theorem excess_append (front back : Text) :
    excess opening closing (front ++ back) =
      excess opening closing front + excess opening closing back := by
  unfold excess
  rw [List.count_append, List.count_append]
  omega

theorem excess_opening (distinct : opening ≠ closing) (text : Text) :
    excess opening closing (opening :: text) = excess opening closing text + 1 := by
  unfold excess
  rw [List.count_cons_self, List.count_cons_of_ne distinct]
  omega

theorem excess_closing (distinct : opening ≠ closing) (text : Text) :
    excess opening closing (closing :: text) = excess opening closing text - 1 := by
  unfold excess
  rw [List.count_cons_self, List.count_cons_of_ne distinct.symm]
  omega

theorem excess_other {c : Char} (notOpening : c ≠ opening) (notClosing : c ≠ closing) (text : Text) :
    excess opening closing (c :: text) = excess opening closing text := by
  unfold excess
  rw [List.count_cons_of_ne notOpening, List.count_cons_of_ne notClosing]

/-- The count of open brackets has an answer if no start of the text closes more than is open, and
the answer is what the excess adds up to. -/
theorem depthAfter?_eq_some_iff (distinct : opening ≠ closing) {depth after : Nat} {text : Text} :
    depthAfter? opening closing depth text = some after ↔
      (∀ front, front <+: text → 0 ≤ depth + excess opening closing front) ∧
        (after : Int) = depth + excess opening closing text := by
  induction text generalizing depth with
  | nil =>
    have empty : ∀ front : Text, front <+: [] → 0 ≤ depth + excess opening closing front := by
      intro front start
      rw [List.prefix_nil.mp start, excess_nil]
      omega
    rw [depthAfter?_nil, Option.some.injEq, excess_nil]
    constructor
    · intro same
      exact ⟨empty, by omega⟩
    · rintro ⟨-, same⟩
      omega
  | cons c text ih =>
    have atStart : (0 : Int) ≤ depth + excess opening closing [] := by
      rw [excess_nil]
      omega
    rw [forall_isPrefix_cons, and_iff_right atStart]
    by_cases isOpening : c = opening
    · subst isOpening
      have shift : ∀ n : Int, (depth + 1 : Nat) + n = depth + (n + 1) := by omega
      simp only [depthAfter?_opening, ih, excess_opening distinct, shift]
    · by_cases isClosing : c = closing
      · subst isClosing
        simp only [excess_closing distinct]
        cases depth with
        | zero =>
          rw [depthAfter?_closing_zero distinct]
          refine iff_of_false (by simp) ?_
          rintro ⟨every, -⟩
          have first := every [] List.nil_prefix
          rw [excess_nil] at first
          omega
        | succ outer =>
          have shift : ∀ n : Int, (outer + 1 : Nat) + (n - 1) = outer + n := by omega
          simp only [depthAfter?_closing distinct, ih, shift]
      · simp only [depthAfter?_other isOpening isClosing, ih, excess_other isOpening isClosing]

theorem depthAfter?_eq_none_iff (distinct : opening ≠ closing) {depth : Nat} {text : Text} :
    depthAfter? opening closing depth text = none ↔
      ¬ ∀ front, front <+: text → 0 ≤ depth + excess opening closing front := by
  cases scanned : depthAfter? opening closing depth text with
  | some after => simpa using ((depthAfter?_eq_some_iff distinct).mp scanned).1
  | none =>
    refine iff_of_true rfl ?_
    intro every
    have last := every text List.prefix_rfl
    have answer : depthAfter? opening closing depth text =
        some (depth + excess opening closing text).toNat :=
      (depthAfter?_eq_some_iff distinct).mpr ⟨every, by omega⟩
    rw [scanned] at answer
    cases answer

theorem balanced_iff_excess (distinct : opening ≠ closing) {text : Text} :
    Balanced opening closing text ↔
      (∀ front, front <+: text → 0 ≤ excess opening closing front) ∧
        excess opening closing text = 0 := by
  rw [balanced_iff_depthAfter? distinct, depthAfter?_eq_some_iff distinct]
  simp [eq_comm]

end Excess

/-! ### The brace that the check points at -/

/-- The shortest start of the text that has more closing than opening braces. -/
structure ShortestSurplus (text front : Text) : Prop where
  start : front <+: text
  surplus : front.count '{' < front.count '}'
  shortest : ∀ other, other <+: text → other.count '{' < other.count '}' →
    front.length ≤ other.length

/-- The brace after `before` opens, and from there on the excess stays above what it was. -/
structure StaysOpen (text before : Text) : Prop where
  brace : before ++ ['{'] <+: text
  above : ∀ front, before ++ ['{'] <+: front → front <+: text →
    excess '{' '}' before < excess '{' '}' front

theorem braces_distinct : '{' ≠ '}' := by decide

theorem staysOpen_append_iff {before after : Text} :
    StaysOpen (before ++ '{' :: after) before ↔
      ∀ inside, inside <+: after → 0 ≤ excess '{' '}' inside := by
  have step : ∀ inside, excess '{' '}' (before ++ '{' :: inside) =
      excess '{' '}' before + (excess '{' '}' inside + 1) := by
    intro inside
    rw [excess_append, excess_opening braces_distinct]
  constructor
  · intro opened inside start
    have above := opened.above (before ++ '{' :: inside) ⟨inside, by simp⟩ (by simpa using start)
    rw [step] at above
    omega
  · intro every
    refine ⟨⟨after, by simp⟩, ?_⟩
    rintro _ ⟨inside, rfl⟩ start
    have short : inside <+: after := by simpa using start
    have nonneg := every inside short
    rw [List.append_assoc, List.singleton_append, step]
    omega

theorem staysOpen_iff_unpaired {text before : Text} (brace : before ++ ['{'] <+: text) :
    StaysOpen text before ↔ ∀ close, (before.length, close) ∉ bracketPairs '{' '}' 0 [] text := by
  obtain ⟨after, rfl⟩ := brace
  rw [List.append_assoc, List.singleton_append, staysOpen_append_iff]
  simp only [mem_bracketPairs_append_iff braces_distinct]
  rw [← not_exists, exists_closedAt_iff braces_distinct, depthAfter?_eq_none_iff braces_distinct]
  simp

theorem StaysOpen.lt_excess {text before : Text} (opened : StaysOpen text before) :
    excess '{' '}' before < excess '{' '}' text :=
  opened.above text opened.brace List.prefix_rfl

/-- No brace stays open in what follows the innermost open one, since there all are closed. -/
theorem StaysOpen.isPrefix {before after other : Text} (balanced : Balanced '{' '}' after)
    (opened : StaysOpen (before ++ '{' :: after) other) : other <+: before := by
  obtain ⟨every, whole⟩ := (balanced_iff_excess braces_distinct).mp balanced
  have start : other <+: before ++ '{' :: after :=
    (List.prefix_append other ['{']).trans opened.brace
  rcases List.prefix_or_prefix_of_prefix start (List.prefix_append _ _) with short | ⟨past, rfl⟩
  · exact short
  · have inner := (List.prefix_append_right_inj before).mp start
    rcases List.prefix_cons_iff.mp inner with rfl | ⟨inside, rfl, short⟩
    · simp
    · have below := opened.lt_excess
      have nonneg := every inside short
      rw [excess_append, excess_append, excess_opening braces_distinct,
        excess_opening braces_distinct, whole] at below
      omega

theorem ShortestSurplus.of_balanced {before : Text} (balanced : Balanced '{' '}' before)
    (after : Text) : ShortestSurplus (before ++ '}' :: after) (before ++ ['}']) := by
  obtain ⟨every, whole⟩ := (balanced_iff_excess braces_distinct).mp balanced
  refine ⟨⟨after, by simp⟩, ?_, ?_⟩
  · have negative : excess '{' '}' (before ++ ['}']) = -1 := by
      rw [excess_append, whole, excess_closing braces_distinct, excess_nil]
      rfl
    unfold excess at negative
    omega
  · intro other start surplus
    refine Nat.le_of_not_lt fun short => ?_
    have inside : other <+: before := by
      refine List.prefix_of_prefix_length_le start (List.prefix_append _ _) ?_
      simpa [Nat.lt_succ_iff] using short
    have nonneg := every other inside
    unfold excess at nonneg
    omega

/-! ### What the check answers -/

theorem balanced_iff_counts {text : Text} :
    Balanced '{' '}' text ↔
      (∀ front, front <+: text → front.count '}' ≤ front.count '{') ∧
        text.count '{' = text.count '}' := by
  rw [balanced_iff_excess braces_distinct]
  unfold excess
  constructor
  · rintro ⟨every, whole⟩
    refine ⟨fun front start => ?_, by omega⟩
    have nonneg := every front start
    omega
  · rintro ⟨every, whole⟩
    refine ⟨fun front start => ?_, by omega⟩
    have covered := every front start
    omega

theorem count_le_of_depthAfter? {text front : Text} {depth : Nat}
    (scanned : depthAfter? '{' '}' 0 text = some depth) (start : front <+: text) :
    front.count '}' ≤ front.count '{' := by
  have nonneg := ((depthAfter?_eq_some_iff braces_distinct).mp scanned).1 front start
  unfold excess at nonneg
  omega

/-- Numbers of braces decide what the check of braces says, and where: it accepts the texts whose
braces make up a Dyck word, it points at the end of the shortest start with a surplus of closing
braces, or else at the last brace that stays open. To stay open is to have no partner. -/
theorem braces_refused_by_counts (text : Text) :
    (checkBraces text = .ok () ↔
      (∀ front, front <+: text → front.count '}' ≤ front.count '{') ∧
        text.count '{' = text.count '}') ∧
    ((∃ front, front <+: text ∧ front.count '{' < front.count '}') →
      ∃ before, ShortestSurplus text (before ++ ['}']) ∧
        RefusedAt (checkBraces text) .braces "unmatched closing brace" text (byteLength before)) ∧
    ((∀ front, front <+: text → front.count '}' ≤ front.count '{') →
      text.count '{' ≠ text.count '}' →
      ∃ before, StaysOpen text before ∧
        (∀ other, StaysOpen text other → byteLength other ≤ byteLength before) ∧
        RefusedAt (checkBraces text) .braces "unmatched opening brace" text (byteLength before)) ∧
    ∀ before, before ++ ['{'] <+: text →
      (StaysOpen text before ↔
        ∀ close, (before.length, close) ∉ bracketPairs '{' '}' 0 [] text) := by
  refine ⟨?accepted, ?closing, ?opening, fun before brace => staysOpen_iff_unpaired brace⟩
  case accepted => rw [checkBraces_eq_ok_iff, balanced_iff_counts]
  case closing =>
    rintro ⟨front, start, surplus⟩
    rcases balanced_or_exists_unmatchedBrace text with balanced | ⟨fault, before, unmatched⟩
    · have covered := (balanced_iff_counts.mp balanced).1 front start
      omega
    · have refused := checkBraces_of_unmatchedBrace unmatched
      cases unmatched with
      | closing after balanced =>
        exact ⟨before, .of_balanced balanced after, refusedAt_of_locate refused⟩
      | opening scanned balanced =>
        have covered := count_le_of_depthAfter? (depthAfter?_of_opening scanned balanced) start
        omega
  case opening =>
    intro covered differ
    rcases balanced_or_exists_unmatchedBrace text with balanced | ⟨fault, before, unmatched⟩
    · exact absurd (balanced_iff_counts.mp balanced).2 differ
    · have refused := checkBraces_of_unmatchedBrace unmatched
      cases unmatched with
      | closing after balanced =>
        have shortest := ShortestSurplus.of_balanced balanced after
        exact absurd shortest.surplus (Nat.not_lt_of_le (covered _ shortest.start))
      | opening scanned balanced =>
        refine ⟨before, ?_, ?_, refusedAt_of_locate refused⟩
        · exact staysOpen_append_iff.mpr ((balanced_iff_excess braces_distinct).mp balanced).1
        · intro other opened
          exact byteLength_le_of_isPrefix (opened.isPrefix balanced)

/-- The inner block is closed, so the brace to point at is the outer one. -/
example : checkBraces ['{', '{', '}'] = .error ⟨.unmatchedOpening, 1, 1, ['{', '{', '}']⟩ :=
  rfl

end Lipi.Text
