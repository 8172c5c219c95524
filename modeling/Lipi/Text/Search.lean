import Lipi.Text.Basic

/-!
# Substring search

`cut?` splits a text around the first occurrence of another, and `followers` lists what comes
after each occurrence. An occurrence is given by the text before it, whose byte length is its
offset.
-/

namespace Lipi.Text

/-- The texts before and after the first occurrence of `needle`. -/
def cut? (needle : Text) : Text → Option (Text × Text)
  | [] => (after? needle []).map ([], ·)
  | c :: text =>
    match after? needle (c :: text) with
    | some after => some ([], after)
    | none => (cut? needle text).map fun (before, after) => (c :: before, after)

/-- The texts after all occurrences of `needle`, in order; occurrences may overlap. -/
def followers (needle : Text) : Text → List Text
  | [] => (after? needle []).toList
  | c :: text => (after? needle (c :: text)).toList ++ followers needle text

/-- Whether `needle` occurs in a text. -/
def contains (text needle : Text) : Bool :=
  (cut? needle text).isSome

/-- The two sides of a cut and the needle between them are the whole text. -/
theorem eq_of_cut? {needle text before after : Text} (found : cut? needle text = some (before, after)) :
    text = before ++ needle ++ after := by
  induction text generalizing before with
  | nil =>
    simp only [cut?, Option.map_eq_some_iff, Prod.mk.injEq] at found
    obtain ⟨rest, here, rfl, rfl⟩ := found
    simpa using after?_eq_some_iff.mp here
  | cons c text ih =>
    rw [cut?] at found
    split at found
    · rename_i rest here
      obtain ⟨rfl, rfl⟩ := Prod.mk.inj (Option.some.inj found)
      simpa using after?_eq_some_iff.mp here
    · obtain ⟨⟨before', after'⟩, later, same⟩ := Option.map_eq_some_iff.mp found
      obtain ⟨rfl, rfl⟩ := Prod.mk.inj same
      simpa using ih later

end Lipi.Text
