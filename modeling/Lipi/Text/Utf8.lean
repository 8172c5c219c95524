import Lipi.Text.Basic

/-!
# UTF-8

Files and processes exchange bytes. A text is written in UTF-8, and `decode?` reads it back only
from bytes that are valid UTF-8. `decodeLossy` reads any bytes, with U+FFFD in place of what is not
valid.
-/

namespace Lipi

/-- The content of a file or of a stream. -/
abbrev Bytes := List UInt8

namespace Text

/-- The UTF-8 form of a text. -/
def encode (text : Text) : Bytes :=
  text.flatMap String.utf8EncodeChar

/-- The text whose UTF-8 form is given, if there is one. -/
def decode? (bytes : Bytes) : Option Text :=
  (ByteArray.mk bytes.toArray).utf8Decode?.map Array.toList

/-- The first byte of a character's UTF-8 form, as a number. -/
def leadByte (c : Char) : Nat :=
  let code := c.toNat
  if code < 0x80 then code
  else if code < 0x800 then 0xC0 + code / 0x40
  else if code < 0x10000 then 0xE0 + code / 0x1000
  else 0xF0 + code / 0x40000

/-! ### Reading damaged bytes -/

/-- The lead byte of a longer form: how many bytes follow it, the bounds of the first of them, and
the bits that the lead byte holds. -/
def longForm? (lead : UInt8) : Option (Nat × UInt8 × UInt8 × Nat) :=
  let code := lead.toNat
  if lead < 0xC2 then none
  else if lead ≤ 0xDF then some (1, 0x80, 0xBF, code - 0xC0)
  else if lead = 0xE0 then some (2, 0xA0, 0xBF, 0)
  else if lead = 0xED then some (2, 0x80, 0x9F, 0xD)
  else if lead ≤ 0xEF then some (2, 0x80, 0xBF, code - 0xE0)
  else if lead = 0xF0 then some (3, 0x90, 0xBF, 0)
  else if lead ≤ 0xF3 then some (3, 0x80, 0xBF, code - 0xF0)
  else if lead = 0xF4 then some (3, 0x80, 0x8F, 4)
  else none

/-- Reads the `count` bytes that are left of a character whose first bits are `code`. On failure
the bytes that fitted are passed over. -/
def decodeRest (low high : UInt8) : (count code : Nat) → Bytes → Option Char × Bytes
  | 0, code, bytes => (some (Char.ofNat code), bytes)
  | _ + 1, _, [] => (none, [])
  | count + 1, code, b :: bytes =>
    if low ≤ b ∧ b ≤ high then
      decodeRest 0x80 0xBF count (code * 0x40 + (b.toNat - 0x80)) bytes
    else (none, b :: bytes)

/-- Reads the character that starts with the byte `lead`. -/
def decodeChar (lead : UInt8) (bytes : Bytes) : Option Char × Bytes :=
  if lead < 0x80 then (some (Char.ofNat lead.toNat), bytes)
  else match longForm? lead with
    | some (count, low, high, bits) => decodeRest low high count bits bytes
    | none => (none, bytes)

theorem length_decodeRest_le (low high : UInt8) (count code : Nat) (bytes : Bytes) :
    (decodeRest low high count code bytes).2.length ≤ bytes.length := by
  induction count generalizing low high code bytes with
  | zero => simp [decodeRest]
  | succ count ih =>
    cases bytes with
    | nil => simp [decodeRest]
    | cons b bytes =>
      rw [decodeRest]
      split
      · exact Nat.le_succ_of_le (ih ..)
      · simp

theorem length_decodeChar_le (lead : UInt8) (bytes : Bytes) :
    (decodeChar lead bytes).2.length ≤ bytes.length := by
  rw [decodeChar]
  split
  · simp
  · split
    · exact length_decodeRest_le ..
    · simp

/-- The text of any bytes: each longest start of a character that goes no further, and each byte
that starts none, is read as U+FFFD. -/
def decodeLossy : Bytes → Text
  | [] => []
  | lead :: bytes =>
    (decodeChar lead bytes).1.getD '�' :: decodeLossy (decodeChar lead bytes).2
termination_by bytes => bytes.length
decreasing_by exact Nat.lt_succ_of_le (length_decodeChar_le lead bytes)

end Text

end Lipi
