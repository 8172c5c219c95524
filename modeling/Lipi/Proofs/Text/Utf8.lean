import Lipi.Text.Utf8

/-!
# UTF-8 forms

The UTF-8 form of a text has `byteLength` bytes, and the text can be read back from it
(`decode?_eq_some_iff`). The first byte of a character tells how long it is (`head?_encode`), and no
byte of a longer form is within ASCII. So newlines can be counted in the bytes
(`count_encode_newline`), and valid bytes can be cut at them (`IsUtf8.of_append`).
-/

namespace Lipi.Text

theorem length_encode (text : Text) : (encode text).length = byteLength text := by
  induction text with
  | nil => rfl
  | cons c text ih =>
    unfold encode at ih ⊢
    rw [List.flatMap_cons, List.length_append, ih, String.length_utf8EncodeChar, byteLength_cons]

theorem toNat_lt (c : Char) : c.toNat < 0x110000 := by
  have valid := c.valid
  unfold UInt32.isValidChar Nat.isValidChar at valid
  unfold Char.toNat
  omega

theorem leadByte_lt (c : Char) : leadByte c < 0x100 := by
  have code := toNat_lt c
  unfold leadByte
  dsimp only
  split
  · omega
  · split
    · omega
    · split <;> omega

theorem head?_encode (c : Char) : (encode [c]).head? = some (UInt8.ofNat (leadByte c)) := by
  have code : c.val.toNat < 0x110000 := toNat_lt c
  have form : encode [c] = String.utf8EncodeChar c := by simp [encode]
  rw [form]
  unfold leadByte String.utf8EncodeChar
  dsimp only [Char.toNat]
  generalize c.val.toNat = v at code ⊢
  by_cases one : v ≤ 0x7F
  · rw [if_pos one, if_pos (show v < 0x80 by omega)]
    rfl
  · rw [if_neg one, if_neg (show ¬ v < 0x80 by omega)]
    by_cases two : v ≤ 0x7FF
    · rw [if_pos two, if_pos (show v < 0x800 by omega), Nat.mod_eq_of_lt (by omega), Nat.add_comm]
      rfl
    · rw [if_neg two, if_neg (show ¬ v < 0x800 by omega)]
      by_cases three : v ≤ 0xFFFF
      · rw [if_pos three, if_pos (show v < 0x10000 by omega), Nat.mod_eq_of_lt (by omega),
          Nat.add_comm]
        rfl
      · rw [if_neg three, if_neg (show ¬ v < 0x10000 by omega), Nat.mod_eq_of_lt (by omega),
          Nat.add_comm]
        rfl

theorem encode_append (front back : Text) : encode (front ++ back) = encode front ++ encode back := by
  simp [encode]

theorem encode_cons (c : Char) (text : Text) : encode (c :: text) = encode [c] ++ encode text :=
  encode_append [c] text

/-! ### Reading back -/

/-- Only valid bytes can be read, and they are read as the text that they are the form of. -/
theorem decode?_eq_some_iff {bytes : Bytes} {text : Text} :
    decode? bytes = some text ↔ encode text = bytes := by
  have array : ByteArray.mk bytes.toArray = bytes.toByteArray :=
    ByteArray.ext List.data_toByteArray.symm
  rw [decode?, array, Option.map_eq_some_iff]
  constructor
  · rintro ⟨chars, decoded, rfl⟩
    have valid : bytes.toByteArray.utf8Decode?.isSome := by rw [decoded]; rfl
    have whole := ByteArray.utf8Encode_get_utf8Decode? (h := valid)
    simp only [decoded, Option.get_some] at whole
    exact List.toByteArray_inj.mp whole
  · rintro rfl
    exact ⟨text.toArray, List.utf8Decode?_utf8Encode, rfl⟩

/-! ### ASCII -/

theorem ofNat_ne_ofNat {m n : Nat} (other : n ≠ m) (small : m < 0x100) (small' : n < 0x100) :
    UInt8.ofNat m ≠ UInt8.ofNat n := by
  intro same
  have codes := congrArg UInt8.toNat same
  rw [UInt8.toNat_ofNat_of_lt' small, UInt8.toNat_ofNat_of_lt' small'] at codes
  exact other codes.symm

theorem encode_ascii {c : Char} (ascii : c.toNat < 0x80) : encode [c] = [UInt8.ofNat c.toNat] := by
  have form : encode [c] = String.utf8EncodeChar c := by simp [encode]
  have short : c.val.toNat ≤ 0x7F := Nat.le_of_lt_succ ascii
  rw [form]
  unfold String.utf8EncodeChar
  dsimp only
  rw [if_pos short]
  rfl

/-- All bytes of a longer form are above ASCII. -/
theorem ascii_not_mem_encode {c : Char} {code : Nat} (ascii : code < 0x80) (other : c.toNat ≠ code) :
    UInt8.ofNat code ∉ encode [c] := by
  have form : encode [c] = String.utf8EncodeChar c := by simp [encode]
  have code' : c.val.toNat ≠ code := other
  rw [form]
  unfold String.utf8EncodeChar
  dsimp only
  generalize c.val.toNat = v at code' ⊢
  by_cases one : v ≤ 0x7F
  · rw [if_pos one, List.mem_singleton]
    exact ofNat_ne_ofNat code' (by omega) (by omega)
  · rw [if_neg one]
    split
    · simp only [List.mem_cons, List.not_mem_nil, or_false, not_or]
      refine ⟨?_, ?_⟩
      all_goals exact ofNat_ne_ofNat (by omega) (by omega) (by omega)
    · split
      · simp only [List.mem_cons, List.not_mem_nil, or_false, not_or]
        refine ⟨?_, ?_, ?_⟩
        all_goals exact ofNat_ne_ofNat (by omega) (by omega) (by omega)
      · simp only [List.mem_cons, List.not_mem_nil, or_false, not_or]
        refine ⟨?_, ?_, ?_, ?_⟩
        all_goals exact ofNat_ne_ofNat (by omega) (by omega) (by omega)

theorem newline_not_mem_encode {c : Char} (other : c ≠ '\n') : 0x0A ∉ encode [c] := by
  have code : c.toNat ≠ 0x0A := by
    intro same
    exact other (Char.ext (UInt32.toNat_inj.mp same))
  exact ascii_not_mem_encode (by decide) code

theorem count_encode_newline (text : Text) : (encode text).count 0x0A = text.count '\n' := by
  induction text with
  | nil => rfl
  | cons c text ih =>
    rw [encode_cons, List.count_append, ih]
    by_cases newline : c = '\n'
    · subst newline
      have form : encode ['\n'] = [0x0A] := by decide
      rw [form, List.count_singleton_self, List.count_cons_self, Nat.add_comm]
    · rw [List.count_eq_zero.mpr (newline_not_mem_encode newline), Nat.zero_add,
        List.count_cons_of_ne newline]

/-! ### Valid bytes -/

/-- The bytes are the UTF-8 form of a text. -/
def IsUtf8 (bytes : Bytes) : Prop :=
  ∃ text : Text, encode text = bytes

theorem decode?_eq_none_iff {bytes : Bytes} : decode? bytes = none ↔ ¬ IsUtf8 bytes := by
  rw [Option.eq_none_iff_forall_ne_some]
  simp only [ne_eq, decode?_eq_some_iff, IsUtf8, not_exists]

/-- A byte within ASCII in valid bytes is a character, so it is in front of another character or is
that character. -/
theorem ascii_place {c : Char} {code : Nat} {text : Text} {front back : Bytes} (ascii : code < 0x80)
    (whole : encode (c :: text) = front ++ UInt8.ofNat code :: back) :
    (front = [] ∧ back = encode text) ∨
      ∃ front', front = encode [c] ++ front' ∧ encode text = front' ++ UInt8.ofNat code :: back := by
  rw [encode_cons] at whole
  rcases List.append_eq_append_iff.mp whole with ⟨front', split, rest⟩ | ⟨inner, split, rest⟩
  · exact .inr ⟨front', split, rest⟩
  · cases inner with
    | nil => exact .inr ⟨[], by simp [split], by simpa using rest.symm⟩
    | cons byte inner =>
      obtain ⟨rfl, later⟩ := List.cons.inj rest
      by_cases same : c.toNat = code
      · subst same
        rw [encode_ascii ascii, List.singleton_eq_append_iff] at split
        rcases split with ⟨rfl, single⟩ | ⟨-, single⟩
        · obtain ⟨-, rfl⟩ := List.cons.inj single
          exact .inl ⟨rfl, later⟩
        · cases single
      · exact absurd (by simp [split]) (ascii_not_mem_encode ascii same)

/-- Valid bytes can be cut at a character within ASCII. -/
theorem IsUtf8.of_append {front back : Bytes} {code : Nat}
    (valid : IsUtf8 (front ++ UInt8.ofNat code :: back)) (ascii : code < 0x80) :
    IsUtf8 front ∧ IsUtf8 back := by
  obtain ⟨text, whole⟩ := valid
  induction text generalizing front with
  | nil => simp [encode] at whole
  | cons c text ih =>
    rcases ascii_place ascii whole with ⟨rfl, rfl⟩ | ⟨front', rfl, later⟩
    · exact ⟨⟨[], rfl⟩, text, rfl⟩
    · obtain ⟨⟨start, rfl⟩, rest⟩ := ih later
      exact ⟨⟨c :: start, encode_cons c start⟩, rest⟩

end Lipi.Text
