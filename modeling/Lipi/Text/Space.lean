import Lipi.Text.Basic

/-!
# White space

White space is the Unicode property White_Space. Trimming removes it from the ends of a text.
-/

namespace Lipi.Text

/-- The characters with the property White_Space. -/
def isSpace (c : Char) : Bool :=
  let code := c.toNat
  (0x09 ≤ code && code ≤ 0x0D) || code == 0x20 || code == 0x85 || code == 0xA0 || code == 0x1680 ||
    (0x2000 ≤ code && code ≤ 0x200A) || code == 0x2028 || code == 0x2029 || code == 0x202F ||
    code == 0x205F || code == 0x3000

/-- The text from its first character that is not white space. -/
def trimStart (text : Text) : Text :=
  text.dropWhile isSpace

/-- The text up to its last character that is not white space. -/
def trimEnd (text : Text) : Text :=
  (text.reverse.dropWhile isSpace).reverse

/-- The text without the white space at its ends. -/
def trim (text : Text) : Text :=
  trimEnd (trimStart text)

end Lipi.Text
