import Lipi.Text.Basic

/-!
# Patterns with preferences

A pattern is a row of parts: fixed words, and runs of characters of a class. A text can match it in
several ways, and the parts say which way they prefer: a run takes as many characters as it can, or
as few, and a part decides before the parts after it. `first?` tries the ways in this order and goes
back where it gets no further. What it finds is told by the preferences alone (`first?_cons_iff`).
-/

namespace Lipi

namespace Pattern

/-- A part of a pattern. -/
inductive Part where
  | word (spelling : Text)
  | most (allowed : Char → Bool)
  | least (allowed : Char → Bool)

/-- What a part may take. -/
def Part.Fits : Part → Text → Prop
  | word spelling, taken => taken = spelling
  | most allowed, taken => ∀ c ∈ taken, allowed c
  | least allowed, taken => ∀ c ∈ taken, allowed c

/-- The part would rather take one text than the other. -/
def Part.Prefers : Part → (taken other : Text) → Prop
  | word _, _, _ => False
  | most _, taken, other => other.length < taken.length
  | least _, taken, other => taken.length < other.length

/-- The ways to split a text after characters of a class, the shortest first. -/
def splits (allowed : Char → Bool) : Text → List (Text × Text)
  | [] => [([], [])]
  | c :: text =>
    ([], c :: text) ::
      if allowed c then (splits allowed text).map fun way => (c :: way.1, way.2) else []

/-- The ways in which a part takes the start of a text, in the order of its preference: what it
takes and what it leaves. -/
def Part.ways : Part → Text → List (Text × Text)
  | word spelling, text => ((Text.after? spelling text).map (spelling, ·)).toList
  | most allowed, text => (splits allowed text).reverse
  | least allowed, text => splits allowed text

end Pattern

/-- Parts that take one piece of a text after the other. -/
abbrev Pattern := List Pattern.Part

namespace Pattern

/-- The pieces that the parts take from the start of a text, each part by the first of its ways with
which the parts after it find theirs. -/
def first? : Pattern → Text → Option (List Text)
  | [], _ => some []
  | part :: parts, text =>
    (part.ways text).findSome? fun way => (first? parts way.2).map (way.1 :: ·)

/-- The pieces that the parts take at the first place of the text at which they match. What comes
before is any text, as short as it can be. -/
def search? (pattern : Pattern) (text : Text) : Option (List Text) :=
  (first? (.least (fun _ => true) :: pattern) text).map List.tail

/-! ### The order of the ways -/

theorem mem_splits_iff {allowed : Char → Bool} {text taken rest : Text} :
    (taken, rest) ∈ splits allowed text ↔ text = taken ++ rest ∧ ∀ c ∈ taken, allowed c := by
  induction text generalizing taken with
  | nil =>
    rw [splits, List.mem_singleton]
    constructor
    · intro same
      cases same
      exact ⟨rfl, by simp⟩
    · rintro ⟨same, -⟩
      obtain ⟨rfl, rfl⟩ := List.append_eq_nil_iff.mp same.symm
      rfl
  | cons c text ih =>
    rw [splits, List.mem_cons]
    constructor
    · rintro (same | later)
      · cases same
        exact ⟨rfl, by simp⟩
      · split at later
        · rename_i here
          obtain ⟨⟨taken', rest'⟩, member, same⟩ := List.mem_map.mp later
          cases same
          obtain ⟨rfl, fits⟩ := ih.mp member
          exact ⟨rfl, by simpa using ⟨here, fits⟩⟩
        · cases later
    · rintro ⟨same, fits⟩
      cases taken with
      | nil => exact .inl (by rw [same]; rfl)
      | cons d taken =>
        obtain ⟨rfl, tail⟩ := List.cons.inj same
        have here : allowed c := fits c (by simp)
        have later := ih.mpr ⟨tail, fun d member => fits d (List.mem_cons_of_mem _ member)⟩
        rw [if_pos here]
        exact .inr (List.mem_map.mpr ⟨_, later, rfl⟩)

theorem pairwise_splits (allowed : Char → Bool) (text : Text) :
    (splits allowed text).Pairwise fun way other => way.1.length < other.1.length := by
  induction text with
  | nil => simp [splits]
  | cons c text ih =>
    rw [splits, List.pairwise_cons]
    split
    · constructor
      · intro way member
        obtain ⟨inner, -, rfl⟩ := List.mem_map.mp member
        exact Nat.succ_pos _
      · rw [List.pairwise_map]
        exact ih.imp fun shorter => Nat.succ_lt_succ shorter
    · exact ⟨by simp, .nil⟩

theorem mem_ways_iff {part : Part} {text taken rest : Text} :
    (taken, rest) ∈ part.ways text ↔ text = taken ++ rest ∧ part.Fits taken := by
  cases part with
  | word spelling =>
    rw [Part.ways, Option.mem_toList, Option.map_eq_some_iff]
    constructor
    · rintro ⟨rest', found, same⟩
      cases same
      exact ⟨Text.after?_eq_some_iff.mp found, rfl⟩
    · rintro ⟨rfl, fits⟩
      exact ⟨rest, Text.after?_eq_some_iff.mpr (by rw [fits]), by rw [fits]⟩
  | most allowed => rw [Part.ways, List.mem_reverse, mem_splits_iff, Part.Fits]
  | least allowed => rw [Part.ways, mem_splits_iff, Part.Fits]

theorem pairwise_ways (part : Part) (text : Text) :
    (part.ways text).Pairwise fun way other => part.Prefers way.1 other.1 := by
  cases part with
  | word spelling =>
    rw [Part.ways]
    cases Text.after? spelling text <;> simp
  | most allowed =>
    rw [Part.ways, List.pairwise_reverse]
    exact pairwise_splits allowed text
  | least allowed => exact pairwise_splits allowed text

theorem Part.Prefers.asymm {part : Part} {taken other : Text} (prefers : part.Prefers taken other) :
    ¬ part.Prefers other taken := by
  cases part with
  | word spelling => exact fun _ => prefers
  | most allowed => exact Nat.lt_asymm prefers
  | least allowed => exact Nat.lt_asymm prefers

/-! ### The preferred match -/

/-- A part takes what fits it and lets the parts after it match, and would not rather take anything
else of which both is true. -/
theorem first?_cons_iff {part : Part} {parts : Pattern} {text : Text} {pieces : List Text} :
    first? (part :: parts) text = some pieces ↔
      ∃ taken rest later, pieces = taken :: later ∧ text = taken ++ rest ∧ part.Fits taken ∧
        first? parts rest = some later ∧
        ∀ other rest', text = other ++ rest' → part.Fits other → part.Prefers other taken →
          first? parts rest' = none := by
  rw [first?, List.findSome?_eq_some_iff]
  constructor
  · rintro ⟨earlier, ⟨taken, rest⟩, later, order, found, failed⟩
    obtain ⟨pieces', matched, rfl⟩ := Option.map_eq_some_iff.mp found
    have member : (taken, rest) ∈ part.ways text := by simp [order]
    obtain ⟨split, fits⟩ := mem_ways_iff.mp member
    refine ⟨taken, rest, pieces', rfl, split, fits, matched, ?_⟩
    intro other rest' split' fits' prefers
    have listed : (other, rest') ∈ part.ways text := mem_ways_iff.mpr ⟨split', fits'⟩
    have sorted := pairwise_ways part text
    rw [order, List.pairwise_append, List.pairwise_cons] at sorted
    obtain ⟨-, ⟨afterwards, -⟩, -⟩ := sorted
    rw [order, List.mem_append, List.mem_cons] at listed
    -- A way that is preferred is listed before, and all of these have failed.
    rcases listed with before | same | after
    · exact Option.map_eq_none_iff.mp (failed _ before)
    · cases same
      exact absurd prefers prefers.asymm
    · exact absurd prefers (afterwards _ after).asymm
  · rintro ⟨taken, rest, later, rfl, split, fits, matched, none⟩
    have listed : (taken, rest) ∈ part.ways text := mem_ways_iff.mpr ⟨split, fits⟩
    obtain ⟨earlier, others, order⟩ := List.append_of_mem listed
    refine ⟨earlier, (taken, rest), others, order, by rw [matched]; rfl, ?_⟩
    rintro ⟨other, rest'⟩ before
    have listed' : (other, rest') ∈ part.ways text := by simp [order, before]
    obtain ⟨split', fits'⟩ := mem_ways_iff.mp listed'
    have sorted := pairwise_ways part text
    rw [order, List.pairwise_append] at sorted
    have prefers := sorted.2.2 _ before (taken, rest) (by simp)
    exact Option.map_eq_none_iff.mpr (none other rest' split' fits' prefers)

theorem first?_cons_eq_none_iff {part : Part} {parts : Pattern} {text : Text} :
    first? (part :: parts) text = none ↔
      ∀ taken rest, text = taken ++ rest → part.Fits taken → first? parts rest = none := by
  rw [first?, List.findSome?_eq_none_iff]
  constructor
  · intro failed taken rest split fits
    exact Option.map_eq_none_iff.mp (failed (taken, rest) (mem_ways_iff.mpr ⟨split, fits⟩))
  · rintro failed ⟨taken, rest⟩ listed
    obtain ⟨split, fits⟩ := mem_ways_iff.mp listed
    exact Option.map_eq_none_iff.mpr (failed taken rest split fits)

/-! ### One part at a time -/

theorem first?_word_cons (word : Text) (parts : Pattern) (text : Text) :
    first? (.word word :: parts) text =
      (Text.after? word text).bind fun rest => (first? parts rest).map (word :: ·) := by
  rw [first?, Part.ways]
  cases Text.after? word text with
  | none => rfl
  | some rest => simp

/-- A run that prefers to be short grows by a character where the parts after it do not match. -/
theorem first?_least_cons (allowed : Char → Bool) (parts : Pattern) (c : Char) (text : Text) :
    first? (.least allowed :: parts) (c :: text) =
      ((first? parts (c :: text)).map ([] :: ·)).or
        (if allowed c then (first? (.least allowed :: parts) text).map (·.modifyHead (c :: ·))
          else none) := by
  rw [first?, first?, Part.ways, Part.ways, splits, List.findSome?_cons]
  cases first? parts (c :: text) with
  | some later => rfl
  | none =>
    rw [Option.map_none, Option.none_or]
    by_cases here : allowed c
    · rw [if_pos here, if_pos here, List.findSome?_map, List.map_findSome?]
      simp [Function.comp_def]
    · rw [if_neg here, if_neg here]
      rfl

/-- A run that prefers to be long takes all it can, if the word after it does not start with one of
its characters. -/
theorem first?_most_word {allowed : Char → Bool} {c : Char} (stop : allowed c = false) (word : Text)
    (parts : Pattern) (text : Text) :
    first? (.most allowed :: .word (c :: word) :: parts) text =
      (first? (.word (c :: word) :: parts) (text.dropWhile allowed)).map
        (text.takeWhile allowed :: ·) := by
  cases matched : first? (.word (c :: word) :: parts) (text.dropWhile allowed) with
  | some later =>
    refine first?_cons_iff.mpr ⟨_, _, later, rfl, List.takeWhile_append_dropWhile.symm,
      List.all_eq_true.mp List.all_takeWhile, matched, ?_⟩
    intro other rest split fits longer
    have size : (text.takeWhile allowed).length = other.length + (rest.takeWhile allowed).length := by
      rw [split, List.takeWhile_append_of_pos fits, List.length_append]
    have longer : (text.takeWhile allowed).length < other.length := longer
    omega
  | none =>
    refine first?_cons_eq_none_iff.mpr ?_
    intro taken rest split fits
    rw [split, List.dropWhile_append_of_pos fits] at matched
    rw [Option.eq_none_iff_forall_not_mem]
    intro pieces found
    -- The word stands right after `taken`, so the run cannot have gone on there.
    obtain ⟨_, later, _, -, rfl, rfl, -, -⟩ := first?_cons_iff.mp found
    rw [List.cons_append, List.dropWhile_cons_of_neg (by simp [stop]), ← List.cons_append, found]
      at matched
    cases matched

theorem isInfix_of_first? {word : Text} {pattern : Pattern} {text : Text} {pieces : List Text}
    (member : .word word ∈ pattern) (found : first? pattern text = some pieces) : word <:+: text := by
  induction pattern generalizing text pieces with
  | nil => cases member
  | cons part parts ih =>
    obtain ⟨taken, rest, later, rfl, rfl, fits, matched, -⟩ := first?_cons_iff.mp found
    rcases List.mem_cons.mp member with same | inside
    · subst same
      have same : taken = word := fits
      exact ⟨[], rest, by rw [same]; rfl⟩
    · exact (ih inside matched).trans (List.suffix_append taken rest).isInfix

end Pattern

end Lipi
