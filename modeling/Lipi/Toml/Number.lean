import Lipi.Toml.Value

/-!
# TOML numbers

Integers are decimal, hexadecimal, octal or binary and have 64 bits. Floating-point numbers have a
fraction or an exponent. Digits may be set apart by single underscores.
-/

namespace Lipi.Toml

/-- The digits of a text in which underscores stand only between digits. -/
def plainDigits? (isDigit : Char → Bool) : Text → Option Text
  | [] => none
  | [c] => if isDigit c then some [c] else none
  | c :: next :: text =>
    if isDigit c then
      if next = '_' then (plainDigits? isDigit text).map (c :: ·)
      else (plainDigits? isDigit (next :: text)).map (c :: ·)
    else none

/-- The value of digits in a base up to sixteen. -/
def digitsValue (base : Nat) (digits : Text) : Nat :=
  digits.foldl (fun value c =>
    value * base + (if c.isDigit then c.toNat - 48 else c.toLower.toNat - 87)) 0

/-- The digits of a whole number, which has no leading zeros. -/
def wholeDigits? (text : Text) : Option Text := do
  let digits ← plainDigits? Char.isDigit text
  if digits.head? = some '0' ∧ digits.length ≠ 1 then none else some digits

/-- A sign, and what follows it. -/
def splitSign : Text → Bool × Text
  | [] => (false, [])
  | c :: text => if c = '-' then (true, text) else if c = '+' then (false, text) else (false, c :: text)

/-- Integers are less than this, and not less than its negative. -/
def integerBound : Nat := Nat.pow 2 63

/-- An integer of 64 bits. -/
def integerInRange? (value : Int) : Option Value :=
  if -integerBound ≤ value ∧ value < integerBound then some (.integer value) else none

def isHexDigit (c : Char) : Bool :=
  c.isDigit || ('a' ≤ c && c ≤ 'f') || ('A' ≤ c && c ≤ 'F')

/-- An integer in any base. Only decimal ones have signs. -/
def integer? (text : Text) : Option Value :=
  match text with
  | '0' :: 'x' :: rest => do
    integerInRange? (digitsValue 16 (← plainDigits? isHexDigit rest))
  | '0' :: 'o' :: rest => do
    integerInRange? (digitsValue 8 (← plainDigits? (fun c => '0' ≤ c && c ≤ '7') rest))
  | '0' :: 'b' :: rest => do
    integerInRange? (digitsValue 2 (← plainDigits? (fun c => c = '0' || c = '1') rest))
  | _ => do
    let (negative, unsigned) := splitSign text
    let magnitude := digitsValue 10 (← wholeDigits? unsigned)
    integerInRange? (if negative then -magnitude else magnitude)

/-- The fraction after a point, if there is one, and what follows it. -/
def splitFraction? : Text → Option (Text × Text)
  | [] => some ([], [])
  | c :: text =>
    if c = '.' then do
      let fraction ← plainDigits? Char.isDigit (text.takeWhile fun c => c ≠ 'e' && c ≠ 'E')
      return (fraction, text.dropWhile fun c => c ≠ 'e' && c ≠ 'E')
    else some ([], c :: text)

/-- The exponent at the end of a number. -/
def exponent? : Text → Option Int
  | [] => some 0
  | c :: text =>
    if c = 'e' ∨ c = 'E' then do
      let (negative, unsigned) := splitSign text
      let magnitude := digitsValue 10 (← plainDigits? Char.isDigit unsigned)
      return if negative then -magnitude else magnitude
    else none

/-- A floating-point number. One that is too large is refused, unless it is negative. -/
def float? (text : Text) : Option Value := do
  let (negative, unsigned) := splitSign text
  if unsigned = "inf".toList then return .float (.infinite negative)
  if unsigned = "nan".toList then return .float .nan
  let isWhole (c : Char) : Bool := c.isDigit || c = '_'
  let whole ← wholeDigits? (unsigned.takeWhile isWhole)
  let rest := unsigned.dropWhile isWhole
  if rest.isEmpty then none
  let (fraction, power) ← splitFraction? rest
  let digits := digitsValue 10 (whole ++ fraction)
  match Binary64.ofDecimal? digits ((← exponent? power) - fraction.length) with
  | some magnitude => return .float (.finite negative magnitude)
  | none => if negative then return .float (.infinite true) else none

end Lipi.Toml
