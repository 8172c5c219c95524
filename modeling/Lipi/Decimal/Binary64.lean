import Lipi.Text.Basic

/-!
# Binary64 numbers in decimal

A decimal is read as the nearest binary64 number, and a binary64 number is written with the fewest
digits that read back as it, nearest to its value. All of it is exact arithmetic on `Nat`.
-/

namespace Lipi

/-- The magnitude `significand * 2 ^ exponent`. -/
structure Binary64 where
  significand : Nat
  exponent : Int
  deriving DecidableEq, Repr

namespace Binary64

/-- The least exponent. -/
def minExponent : Int := -1074

/-- The greatest exponent. -/
def maxExponent : Int := 971

/-- The bound of all significands. -/
def significandBound : Nat := Nat.pow 2 53

/-- Splits a power into a numerator and a denominator. -/
def power (base : Nat) (exponent : Int) : Nat × Nat :=
  if 0 ≤ exponent then (Nat.pow base exponent.toNat, 1) else (1, Nat.pow base (-exponent).toNat)

/-- The quotient rounded to the nearest number, a half to the even one. -/
def roundQuotient (numerator denominator : Nat) : Nat :=
  let quotient := numerator / denominator
  let twice := 2 * (numerator % denominator)
  if denominator < twice ∨ (twice = denominator ∧ quotient % 2 = 1) then quotient + 1 else quotient

/-- The greatest `k` with `2 ^ k ≤ numerator / denominator`, for positive numbers. -/
def binaryOrder (numerator denominator : Nat) : Int :=
  let estimate := (numerator.log2 : Int) - denominator.log2
  let (up, down) := power 2 estimate
  if denominator * up ≤ numerator * down then estimate else estimate - 1

/-- The binary64 number nearest to a positive quotient, if there is a finite one. -/
def ofQuotient? (numerator denominator : Nat) : Option Binary64 :=
  let exponent := max (binaryOrder numerator denominator - 52) minExponent
  let (up, down) := power 2 exponent
  let significand := roundQuotient (numerator * down) (denominator * up)
  let rounded : Binary64 :=
    if significand = significandBound then ⟨significand / 2, exponent + 1⟩
    else ⟨significand, exponent⟩
  if maxExponent < rounded.exponent then none else some rounded

/-- How many decimal digits a number has. -/
def digitCount (n : Nat) : Nat :=
  (Nat.toDigits 10 n).length

/-- The binary64 number nearest to `digits * 10 ^ exponent`, if there is a finite one. Decimals that
are far too large or too small need no arithmetic. -/
def ofDecimal? (digits : Nat) (exponent : Int) : Option Binary64 :=
  let order := exponent + digitCount digits
  if digits = 0 ∨ order < -400 then some ⟨0, minExponent⟩
  else if 400 < order then none
  else
    let (up, down) := power 10 exponent
    ofQuotient? (digits * up) down

/-! ### Writing -/

/-- The greatest `k` with `10 ^ k ≤ numerator / denominator`, found among the negative ones by
counting how often the quotient has to be multiplied by ten. -/
def decimalOrder (numerator denominator : Nat) : Int :=
  if denominator ≤ numerator then digitCount (numerator / denominator) - 1
  else
    let steps := ((List.range 400).find? fun k => denominator ≤ numerator * Nat.pow 10 k).getD 0
    0 - (steps : Int)

/-- The number of the form `n * 10 ^ grid` that is nearest to a value among those that read back as
it. The value and the bounds between which numbers read back as it are over one denominator, and
`closed` says whether the bounds belong to it. Of two equally near, the greater is taken. -/
def onGrid? (low value high denominator : Nat) (closed : Bool) (grid : Int) : Option Nat :=
  let (up, down) := power 10 grid
  let unit := denominator * up
  let below := value * down / unit
  let readsBack (n : Nat) : Bool :=
    let point := n * unit
    if closed then low * down ≤ point && point ≤ high * down
    else low * down < point && point < high * down
  let nearerBelow := 2 * (value * down) < (2 * below + 1) * unit
  match readsBack below, readsBack (below + 1) with
  | true, true => some (if nearerBelow then below else below + 1)
  | true, false => some below
  | false, true => some (below + 1)
  | false, false => none

/-- The fewest digits that read back as a positive number, with the power of ten they are
multiplied by. -/
def shortest (number : Binary64) : Nat × Int :=
  let (up, down) := power 2 (number.exponent - 2)
  let m := number.significand
  let gapBelow :=
    if m * 2 = significandBound ∧ minExponent < number.exponent then 1 else 2
  let low := (4 * m - gapBelow) * up
  let value := 4 * m * up
  let high := (4 * m + 2) * up
  let order := decimalOrder value down
  let attempt (count : Nat) : Option (Nat × Int) :=
    let grid := order - count
    (onGrid? low value high down (m % 2 = 0) grid).map (·, grid)
  ((List.range 18).findSome? attempt).getD (0, 0)

/-- Takes the zeros off the end of a decimal. -/
def dropZeros : (fuel : Nat) → Nat × Int → Nat × Int
  | 0, decimal => decimal
  | fuel + 1, (digits, exponent) =>
    if digits ≠ 0 ∧ digits % 10 = 0 then dropZeros fuel (digits / 10, exponent + 1)
    else (digits, exponent)

/-- A number in positional notation, without a point if it is whole. -/
def render (number : Binary64) : Text :=
  if number.significand = 0 then ['0']
  else
    let (digits, exponent) := dropZeros 18 number.shortest
    let text := Nat.toDigits 10 digits
    if 0 ≤ exponent then text ++ List.replicate exponent.toNat '0'
    else
      let places := (-exponent).toNat
      let padded := List.replicate (places + 1 - text.length) '0' ++ text
      let whole := padded.length - places
      padded.take whole ++ '.' :: padded.drop whole

end Binary64

end Lipi
