import Lipi.Toml.Reader

/-!
# TOML strings

The four kinds of strings: with escapes or literal, on one line or on several.
-/

namespace Lipi.Toml.Reader

/-- The value of a hexadecimal digit. -/
def hexValue? (c : Char) : Option Nat :=
  if '0' ≤ c ∧ c ≤ '9' then some (c.toNat - 48)
  else if 'a' ≤ c ∧ c ≤ 'f' then some (c.toNat - 87)
  else if 'A' ≤ c ∧ c ≤ 'F' then some (c.toNat - 55)
  else none

/-- Reads the character with a code of the given number of hexadecimal digits. -/
def codePoint (digits : Nat) : Reader Char := fun text =>
  let code := (text.take digits).foldlM (fun code c => (hexValue? c).map (code * 16 + ·)) 0
  if text.length < digits then none
  else match code with
    | some code => if code.isValidChar then some (Char.ofNat code, text.drop digits) else none
    | none => none

/-- Reads what follows the backslash of an escape. -/
def escaped : Reader Char := do
  match ← satisfy fun _ => true with
  | 'b' => return '\x08'
  | 't' => return '\t'
  | 'n' => return '\n'
  | 'f' => return '\x0c'
  | 'r' => return '\r'
  | '"' => return '"'
  | '\\' => return '\\'
  | 'u' => codePoint 4
  | 'U' => codePoint 8
  | _ => failure

/-- Reads a string with escapes from after its quote. -/
def basicText : (rounds : Nat) → Reader Text
  | 0 => failure
  | rounds + 1 => do
    match ← satisfy isPrintable with
    | '"' => return []
    | '\\' => do
      let c ← escaped
      return c :: (← basicText rounds)
    | c => return c :: (← basicText rounds)

/-- Reads a literal string from after its quote. -/
def literalText : Reader Text := do
  let content ← span fun c => isPrintable c && c ≠ '\''
  exactly ['\'']
  return content

/-- Reads the quotes at the end of a string on several lines, of which three have been read. One or
two more belong to the string. -/
def closingQuotes (quote : Char) : Reader Text := do
  if ← accept [quote, quote] then return [quote, quote]
  if ← accept [quote] then return [quote]
  return []

/-- Takes blanks and line ends, after a backslash at the end of a line. -/
def skipBlankLines : (rounds : Nat) → Reader Unit
  | 0 => return
  | rounds + 1 => do
    skipBlanks
    if ← acceptNewline then skipBlankLines rounds

/-- Reads a string on several lines from after its first line end, with or without escapes. Line
ends are read as newlines. -/
def multilineText (quote : Char) (escapes : Bool) : (rounds : Nat) → Reader Text
  | 0 => failure
  | rounds + 1 => do
    if ← accept [quote, quote, quote] then closingQuotes quote
    else if ← acceptNewline then return '\n' :: (← multilineText quote escapes rounds)
    else
      let c ← satisfy isPrintable
      if escapes && c = '\\' then
        let blanks ← span isBlank
        if ← acceptNewline then
          skipBlankLines rounds
          multilineText quote escapes rounds
        else if blanks.isEmpty then
          let c ← escaped
          return c :: (← multilineText quote escapes rounds)
        else failure
      else return c :: (← multilineText quote escapes rounds)

/-- Reads a string on one line. -/
def lineString : Reader Text := do
  if ← accept ['"'] then bounded basicText
  else
    exactly ['\'']
    literalText

/-- Reads a string on several lines. -/
def multilineString (quote : Char) : Reader Text := do
  exactly [quote, quote, quote]
  discard acceptNewline
  bounded (multilineText quote (quote = '"'))

/-- Reads a string of any kind. -/
def anyString : Reader Text := fun text =>
  match text with
  | '"' :: '"' :: '"' :: _ => multilineString '"' text
  | '\'' :: '\'' :: '\'' :: _ => multilineString '\'' text
  | _ => lineString text

end Lipi.Toml.Reader
