import Lipi.Toml.Reader

/-!
# TOML dates and times

A moment is a date, a time, or both with an optional offset from UTC. It is read into its standard
form: `T` between date and time, `Z` for UTC, and no zeros at the end of a fraction.
-/

namespace Lipi.Toml.Reader

/-- Reads a number of the given number of digits, within bounds. -/
def fixedNumber (count low high : Nat) : Reader Nat := fun text =>
  let digits := text.take count
  let value := digits.foldl (fun value c => value * 10 + (c.toNat - 48)) 0
  if digits.length = count ∧ digits.all Char.isDigit ∧ low ≤ value ∧ value ≤ high then
    some (value, text.drop count)
  else none

/-- A number with zeros in front of it. -/
def padded (width n : Nat) : Text :=
  let digits := Nat.toDigits 10 n
  List.replicate (width - digits.length) '0' ++ digits

def daysInMonth (year month : Nat) : Nat :=
  if month = 2 then
    if year % 4 = 0 ∧ (year % 100 ≠ 0 ∨ year % 400 = 0) then 29 else 28
  else if month = 4 ∨ month = 6 ∨ month = 9 ∨ month = 11 then 30
  else 31

/-- Reads a date. -/
def date : Reader Text := do
  let year ← fixedNumber 4 0 9999
  exactly ['-']
  let month ← fixedNumber 2 1 12
  exactly ['-']
  let day ← fixedNumber 2 1 (daysInMonth year month)
  return padded 4 year ++ '-' :: padded 2 month ++ '-' :: padded 2 day

/-- The fraction of a second, of which nine digits count. -/
def secondFraction (digits : Text) : Text :=
  let significant := ((digits.take 9).reverse.dropWhile (· = '0')).reverse
  if significant.isEmpty then [] else '.' :: significant

/-- Reads a time. -/
def time : Reader Text := do
  let hour ← fixedNumber 2 0 23
  exactly [':']
  let minute ← fixedNumber 2 0 59
  exactly [':']
  let second ← fixedNumber 2 0 60
  let fraction ← if ← accept ['.'] then span Char.isDigit else pure ['0']
  if fraction.isEmpty then failure
  return padded 2 hour ++ ':' :: padded 2 minute ++ ':' :: padded 2 second ++
    secondFraction fraction

/-- Reads an offset from UTC, if there is one. -/
def offset : Reader Text := do
  match ← peek with
  | some sign =>
    if sign = 'Z' ∨ sign = 'z' then
      discard (satisfy fun _ => true)
      return ['Z']
    else if sign = '+' ∨ sign = '-' then
      discard (satisfy fun _ => true)
      let hours ← fixedNumber 2 0 23
      exactly [':']
      let minutes ← fixedNumber 2 0 59
      let shown := if hours = 0 ∧ minutes = 0 then '+' else sign
      return shown :: padded 2 hours ++ ':' :: padded 2 minutes
    else return []
  | none => return []

/-- Whether a time follows after one character. -/
def timeFollows (text : Text) : Bool :=
  match text with
  | separator :: a :: b :: colon :: _ =>
    (separator = 'T' || separator = 't' || separator = ' ') && a.isDigit && b.isDigit && colon = ':'
  | _ => false

/-- Reads a moment. -/
def moment : Reader Text := fun text =>
  let isTime := (text.drop 2).head? = some ':'
  if isTime then time text
  else (do
    let day ← date
    if timeFollows (← get) then
      discard (satisfy fun _ => true)
      let clock ← time
      return day ++ 'T' :: clock ++ (← offset)
    else return day : Reader Text) text

end Lipi.Toml.Reader
