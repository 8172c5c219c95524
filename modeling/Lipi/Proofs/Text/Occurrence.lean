import Lipi.Text.Search

/-!
# Occurrences

`cut?` finds the first occurrence of a text in another. `cut?_eq_none_iff` says when there is none,
and `cut?_append` finds it after a text that does not contain it, for a needle whose characters
are distinct and which therefore cannot overlap itself.
-/

namespace Lipi.Text

/-- The token stands in the text at a byte offset. -/
def OccursAt (text token : Text) (offset : Nat) : Prop :=
  ∃ before after, text = before ++ token ++ after ∧ byteLength before = offset

theorem OccursAt.within {text token : Text} {offset : Nat} (occurs : OccursAt text token offset)
    (before after : Text) :
    OccursAt (before ++ text ++ after) token (byteLength before + offset) := by
  obtain ⟨front, back, rfl, rfl⟩ := occurs
  exact ⟨before ++ front, back ++ after, by simp, byteLength_append before front⟩

theorem OccursAt.isInfix {text token : Text} {offset : Nat} (occurs : OccursAt text token offset) :
    token <:+: text := by
  obtain ⟨before, after, same, -⟩ := occurs
  exact ⟨before, after, same.symm⟩

/-- The part is what the text has from one offset to another. -/
def Slice (text : Text) (first last : Nat) (part : Text) : Prop :=
  OccursAt text part first ∧ first + byteLength part = last

/-- No character of the text is cut at the offset. -/
def IsBoundary (text : Text) (offset : Nat) : Prop :=
  ∃ front, front <+: text ∧ byteLength front = offset

theorem byteLength_le_of_isPrefix {front text : Text} (start : front <+: text) :
    byteLength front ≤ byteLength text := by
  obtain ⟨rest, rfl⟩ := start
  rw [byteLength_append]
  omega

/-- An offset is reached in one way only. -/
theorem eq_of_isPrefix_of_byteLength {text front front' : Text} (start : front <+: text)
    (start' : front' <+: text) (same : byteLength front = byteLength front') : front = front' := by
  induction text generalizing front front' with
  | nil => rw [List.prefix_nil.mp start, List.prefix_nil.mp start']
  | cons c text ih =>
    have size := Char.utf8Size_pos c
    rcases List.prefix_cons_iff.mp start with rfl | ⟨rest, rfl, inside⟩
    · rcases List.prefix_cons_iff.mp start' with rfl | ⟨rest', rfl, -⟩
      · rfl
      · rw [byteLength_nil, byteLength_cons] at same
        omega
    · rcases List.prefix_cons_iff.mp start' with rfl | ⟨rest', rfl, inside'⟩
      · rw [byteLength_nil, byteLength_cons] at same
        omega
      · rw [byteLength_cons, byteLength_cons, Nat.add_left_cancel_iff] at same
        rw [ih inside inside' same]

theorem isPrefix_of_byteLength_le {text front front' : Text} (start : front <+: text)
    (start' : front' <+: text) (short : byteLength front ≤ byteLength front') : front <+: front' := by
  rcases List.prefix_or_prefix_of_prefix start start' with inside | ⟨rest, rfl⟩
  · exact inside
  · rw [byteLength_append] at short
    have same := eq_of_isPrefix_of_byteLength start start' (by rw [byteLength_append]; omega)
    exact ⟨[], by rw [List.append_nil, same]⟩

theorem OccursAt.of_append {front text token : Text} {offset : Nat}
    (occurs : OccursAt (front ++ text) token (byteLength front + offset)) :
    OccursAt text token offset := by
  obtain ⟨before, after, same, size⟩ := occurs
  have start : front <+: before :=
    isPrefix_of_byteLength_le (List.prefix_append _ _) ⟨token ++ after, by rw [same, List.append_assoc]⟩ (by omega)
  obtain ⟨before, rfl⟩ := start
  rw [byteLength_append] at size
  rw [List.append_assoc, List.append_assoc, List.append_cancel_left_eq] at same
  exact ⟨before, after, by simp [same], by omega⟩

/-! ### The first occurrence -/

theorem after?_eq_none_iff {needle text : Text} :
    after? needle text = none ↔ ¬ needle <+: text := by
  constructor
  · rintro absent ⟨rest, rfl⟩
    simp at absent
  · intro other
    cases found : after? needle text with
    | none => rfl
    | some rest => exact absurd ⟨rest, (after?_eq_some_iff.mp found).symm⟩ other

theorem after?_isSome_iff {needle text : Text} :
    (after? needle text).isSome ↔ needle <+: text := by
  rw [← Option.ne_none_iff_isSome, ne_eq, after?_eq_none_iff, Classical.not_not]

theorem cut?_eq_none_iff {needle text : Text} : cut? needle text = none ↔ ¬ needle <:+: text := by
  induction text with
  | nil =>
    rw [cut?, Option.map_eq_none_iff, after?_eq_none_iff]
    simp
  | cons c text ih =>
    rw [cut?, List.infix_cons_iff, not_or, ← ih]
    cases here : after? needle (c :: text) with
    | some rest => simp [(after?_eq_some_iff.mp here)]
    | none => simp [after?_eq_none_iff.mp here]

theorem occursAt_of_cut? {needle text before after : Text}
    (found : cut? needle text = some (before, after)) : OccursAt text needle (byteLength before) :=
  ⟨before, after, eq_of_cut? found, rfl⟩

/-- The offset is the first one at which the token stands in the text. -/
def FirstAt (text token : Text) (offset : Nat) : Prop :=
  OccursAt text token offset ∧ ∀ other, OccursAt text token other → offset ≤ other

/-- The offset is the first one not before `start` at which the token stands in the text. -/
def FirstFrom (text token : Text) (start offset : Nat) : Prop :=
  start ≤ offset ∧ OccursAt text token offset ∧
    ∀ other, start ≤ other → OccursAt text token other → offset ≤ other

/-- No other occurrence has less text before it. -/
theorem exists_before_of_firstAt {text token : Text} {offset : Nat}
    (first : FirstAt text token offset) :
    ∃ before after, text = before ++ token ++ after ∧ byteLength before = offset ∧
      ∀ earlier later, text = earlier ++ token ++ later → before <+: earlier := by
  obtain ⟨⟨before, after, split, rfl⟩, least⟩ := first
  refine ⟨before, after, split, rfl, ?_⟩
  intro earlier later split'
  have start : before <+: text := ⟨token ++ after, by simp [split]⟩
  have start' : earlier <+: text := ⟨token ++ later, by simp [split']⟩
  exact isPrefix_of_byteLength_le start start' (least _ ⟨earlier, later, split', rfl⟩)

theorem isPrefix_of_cut? {needle text before after earlier later : Text}
    (found : cut? needle text = some (before, after)) (split : text = earlier ++ needle ++ later) :
    before <+: earlier := by
  induction text generalizing before earlier with
  | nil =>
    obtain ⟨rest, -, same⟩ := Option.map_eq_some_iff.mp found
    cases same
    exact List.nil_prefix
  | cons c text ih =>
    rw [cut?] at found
    split at found
    · cases found
      exact List.nil_prefix
    · rename_i absent
      obtain ⟨⟨before', after'⟩, inside, same⟩ := Option.map_eq_some_iff.mp found
      cases same
      cases earlier with
      | nil => exact absurd ⟨later, split.symm⟩ (after?_eq_none_iff.mp absent)
      | cons d earlier =>
        obtain ⟨rfl, rest⟩ := List.cons.inj split
        exact List.cons_prefix_cons.mpr ⟨rfl, ih inside rest⟩

theorem firstAt_of_cut? {needle text before after : Text}
    (found : cut? needle text = some (before, after)) : FirstAt text needle (byteLength before) := by
  refine ⟨occursAt_of_cut? found, ?_⟩
  rintro _ ⟨earlier, later, split, rfl⟩
  obtain ⟨rest, rfl⟩ := isPrefix_of_cut? found split
  rw [byteLength_append]
  omega

theorem firstFrom_of_cut? {front text token before after : Text}
    (found : cut? token text = some (before, after)) :
    FirstFrom (front ++ text) token (byteLength front) (byteLength front + byteLength before) := by
  obtain ⟨occurs, least⟩ := firstAt_of_cut? found
  refine ⟨Nat.le_add_right _ _, ?_, ?_⟩
  · simpa using occurs.within front []
  · intro other late occurs'
    obtain ⟨offset, rfl⟩ := Nat.exists_eq_add_of_le late
    have bound := least offset occurs'.of_append
    omega

theorem exists_cut?_of_present {needle text : Text} (present : needle <:+: text) :
    ∃ cut, cut? needle text = some cut :=
  Option.ne_none_iff_exists'.mp fun absent => cut?_eq_none_iff.mp absent present

theorem not_isInfix_of_cut? {needle text before after : Text} (someChar : needle ≠ [])
    (found : cut? needle text = some (before, after)) : ¬ needle <:+: before := by
  induction text generalizing before with
  | nil =>
    obtain ⟨rest, -, same⟩ := Option.map_eq_some_iff.mp found
    cases same
    exact fun present => someChar (List.infix_nil.mp present)
  | cons c text ih =>
    rw [cut?] at found
    split at found
    · cases found
      exact fun present => someChar (List.infix_nil.mp present)
    · rename_i absent
      obtain ⟨⟨before', after'⟩, later, same⟩ := Option.map_eq_some_iff.mp found
      cases same
      intro present
      -- At the very start there is none, and further on there is none before the first.
      rcases List.infix_cons_iff.mp present with start | inside
      · rw [eq_of_cut? later, List.append_assoc, ← List.cons_append] at absent
        exact after?_eq_none_iff.mp absent (start.trans (List.prefix_append _ _))
      · exact ih later inside

/-- Distinct characters cannot start again inside a needle that they begin. -/
theorem not_isPrefix_of_nodup {needle before : Text} (distinct : needle.Nodup)
    (someBefore : before ≠ []) (absent : ¬ needle <:+: before) (after : Text) :
    ¬ needle <+: before ++ needle ++ after := by
  rintro ⟨rest, same⟩
  rw [List.append_assoc] at same
  rcases List.append_eq_append_iff.mp same with ⟨extra, short, -⟩ | ⟨tail, long, shared⟩
  · -- The needle ends inside `before`.
    exact absent ⟨[], extra, by simpa using short.symm⟩
  · -- The needle is `before` and a `tail`, and the tail begins with the needle's first character.
    cases before with
    | nil => exact someBefore rfl
    | cons c before =>
      cases tail with
      | nil => exact absent ⟨[], [], by simpa using long⟩
      | cons d tail =>
        have first : c = d := by
          rw [long] at shared
          simpa using (List.cons.inj shared).1
        rw [long, first] at distinct
        simp at distinct

/-- A needle of distinct characters is first found after a text that does not contain it. -/
theorem cut?_append {needle before : Text} (distinct : needle.Nodup)
    (absent : ¬ needle <:+: before) (after : Text) :
    cut? needle (before ++ needle ++ after) = some (before, after) := by
  induction before with
  | nil =>
    cases needle with
    | nil => exact absurd List.nil_infix absent
    | cons n needle =>
      have here : after? (n :: needle) (n :: (needle ++ after)) = some after :=
        after?_append (n :: needle) after
      simp only [List.nil_append, List.cons_append]
      rw [cut?, here]
  | cons c before ih =>
    have later := not_isPrefix_of_nodup distinct (List.cons_ne_nil c before) absent after
    have rest := ih fun earlier => absent (List.infix_cons earlier)
    simp only [List.cons_append] at later ⊢
    rw [cut?, after?_eq_none_iff.mpr later, rest]
    rfl

/-- A needle all of whose characters have a property lies on one side of a character without
it. -/
theorem infix_append_cases {needle before after : Text} {p : Char → Prop} (whole : ∀ c ∈ needle, p c)
    (border : ∀ c ∈ after.head?, ¬ p c) (present : needle <:+: before ++ after) :
    needle <:+: before ∨ needle <:+: after := by
  obtain ⟨front, back, same⟩ := present
  rw [List.append_assoc] at same
  rcases List.append_eq_append_iff.mp same with ⟨extra, long, rest⟩ | ⟨extra, short, rest⟩
  · -- The needle starts in `before`; it may end there or go on into `after`.
    rcases List.append_eq_append_iff.mp rest with ⟨extra', long', rest'⟩ | ⟨extra', short', rest'⟩
    · exact Or.inl ⟨front, extra', by rw [List.append_assoc, ← long', long]⟩
    · cases after with
      | nil =>
        rw [(List.append_eq_nil_iff.mp rest'.symm).1, List.append_nil] at short'
        exact Or.inl ⟨front, [], by rw [List.append_nil, short', long]⟩
      | cons c after =>
        cases extra' with
        | nil => exact Or.inl ⟨front, [], by rw [List.append_nil, short', List.append_nil, long]⟩
        | cons d extra' =>
          obtain ⟨rfl, -⟩ := List.cons.inj rest'
          exact absurd (whole c (by simp [short'])) (border c (by simp))
  · exact Or.inr ⟨extra, back, by rw [List.append_assoc, rest]⟩

end Lipi.Text
