/-!
# Text

A program is handled as the list of its characters. Offsets into a text count the bytes of its
UTF-8 form, so `byteLength` measures every prefix that an offset stands for.
-/

namespace Lipi

/-- The characters of a program or of one of its lines. -/
abbrev Text := List Char

namespace Text

/-- The number of bytes of the UTF-8 form. -/
def byteLength (text : Text) : Nat :=
  text.foldr (fun c bytes => c.utf8Size + bytes) 0

@[simp]
theorem byteLength_nil : byteLength [] = 0 := rfl

@[simp]
theorem byteLength_cons (c : Char) (text : Text) :
    byteLength (c :: text) = c.utf8Size + byteLength text := rfl

@[simp]
theorem byteLength_append (a b : Text) : byteLength (a ++ b) = byteLength a + byteLength b := by
  induction a with
  | nil => simp
  | cons c a ih => simp [ih, Nat.add_assoc]

/-- What follows `needle` in a text that starts with it. -/
def after? : (needle text : Text) → Option Text
  | [], text => some text
  | _ :: _, [] => none
  | n :: needle, c :: text => if n = c then after? needle text else none

theorem after?_eq_some_iff {needle text rest : Text} :
    after? needle text = some rest ↔ text = needle ++ rest := by
  induction needle generalizing text with
  | nil => simp [after?]
  | cons n needle ih =>
    cases text with
    | nil => simp [after?]
    | cons c text =>
      by_cases same : n = c
      · simp [after?, same, ih]
      · simp [after?, same, Ne.symm same]

@[simp]
theorem after?_append (needle rest : Text) : after? needle (needle ++ rest) = some rest :=
  after?_eq_some_iff.mpr rfl

end Text

end Lipi
