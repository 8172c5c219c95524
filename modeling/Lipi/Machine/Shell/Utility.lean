import Lipi.Machine.FileTree
import Lipi.Machine.ProgramRun
import Lipi.Text.Lines

/-!
# Utilities

The utilities that scripts call, each as a function from its arguments and its input.
-/

namespace Lipi.Shell

/-- How a utility acts on the shell that called it. -/
inductive Effect where
  | proceed
  | exit (code : Nat)
  | signal (number : Nat)
  deriving DecidableEq, Repr

/-- What a utility does. -/
structure UtilityRun where
  output : Bytes := []
  errors : Bytes := []
  status : Nat := 0
  readsInput : Bool := false
  effect : Effect := .proceed
  deriving DecidableEq, Repr

/-- The process number that scripts see as their own. -/
def shellProcess : Text := "100".toList

/-! ### Escapes -/

/-- The byte of an escape with a letter. -/
def letterEscape? (c : Char) : Option UInt8 :=
  match c with
  | 'a' => some 7
  | 'b' => some 8
  | 't' => some 9
  | 'n' => some 10
  | 'v' => some 11
  | 'f' => some 12
  | 'r' => some 13
  | '\\' => some 92
  | _ => none

def isOctal (c : Char) : Bool :=
  '0' ≤ c && c ≤ '7'

/-- The byte with the given octal digits. -/
def octalByte (digits : Text) : UInt8 :=
  UInt8.ofNat (digits.foldl (fun value c => value * 8 + (c.toNat - 48)) 0)

/-- The bytes of a text with its escapes resolved, up to an escape that ends the output. Octal
escapes have at most three digits after a zero; without `needsZero` the zero may be missing. The
second part says whether the output was ended. -/
def unescape (needsZero : Bool) : (fuel : Nat) → Text → Bytes × Bool
  | 0, _ => ([], false)
  | _ + 1, [] => ([], false)
  | fuel + 1, c :: text =>
    let continueWith (bytes : Bytes) (rest : Text) : Bytes × Bool :=
      let later := unescape needsZero fuel rest
      (bytes ++ later.1, later.2)
    if c ≠ '\\' then continueWith (String.utf8EncodeChar c) text
    else match text with
      | [] => ([92], false)
      | next :: rest =>
        match letterEscape? next with
        | some byte => continueWith [byte] rest
        | none =>
          if next = 'c' then ([], true)
          else if next = '0' then
            let digits := (rest.takeWhile isOctal).take 3
            continueWith [octalByte digits] (rest.drop digits.length)
          else if isOctal next ∧ ¬ needsZero then
            let digits := (text.takeWhile isOctal).take 3
            continueWith [octalByte digits] (text.drop digits.length)
          else continueWith (92 :: String.utf8EncodeChar next) rest

/-! ### Printing -/

/-- Writes its arguments with a space between each two, and a newline unless told otherwise. -/
def echo (arguments : List Text) : UtilityRun :=
  let silent := arguments.head? = some ['-', 'n']
  let words := if silent then arguments.drop 1 else arguments
  let line := [' '].intercalate words
  let (bytes, ended) := unescape true (line.length + 1) line
  { output := if silent ∨ ended then bytes else bytes ++ [10] }

/-- Fills up a text to a width. -/
def pad (width : Nat) (left : Bool) (fill : Char) (text : Text) : Text :=
  let padding := List.replicate (width - text.length) fill
  if left then text ++ padding else padding ++ text

/-- The digits of a number in a base up to sixteen. -/
def digits (base value : Nat) : Text :=
  Nat.toDigits base value

/-- The number that an argument starts with. -/
def numberOf (argument : Text) : Int :=
  let magnitude (text : Text) : Nat :=
    (text.takeWhile Char.isDigit).foldl (fun value c => value * 10 + (c.toNat - 48)) 0
  match argument with
  | c :: text => if c = '-' then - Int.ofNat (magnitude text) else Int.ofNat (magnitude argument)
  | [] => 0

/-- An argument as a conversion writes it. -/
def convert (conversion : Char) (argument : Text) : Option Bytes :=
  match conversion with
  | 's' => some (Text.encode argument)
  | 'c' => some (Text.encode (argument.take 1))
  | 'b' => some (unescape false (argument.length + 1) argument).1
  | 'd' | 'i' => some (Text.encode (toString (numberOf argument)).toList)
  | 'u' => some (Text.encode (digits 10 (numberOf argument).toNat))
  | 'o' => some (Text.encode (digits 8 (numberOf argument).toNat))
  | 'x' => some (Text.encode (digits 16 (numberOf argument).toNat))
  | _ => none

/-- Writes a format once, and gives the arguments that are left. -/
def format : (fuel : Nat) → (arguments : List Text) → Text → Bytes × List Text
  | 0, arguments, _ => ([], arguments)
  | _ + 1, arguments, [] => ([], arguments)
  | fuel + 1, arguments, c :: text =>
    let continueWith (bytes : Bytes) (arguments : List Text) (rest : Text) : Bytes × List Text :=
      let later := format fuel arguments rest
      (bytes ++ later.1, later.2)
    if c = '\\' then
      match text with
      | [] => ([92], arguments)
      | next :: rest =>
        match letterEscape? next with
        | some byte => continueWith [byte] arguments rest
        | none =>
          if isOctal next then
            let octal := (text.takeWhile isOctal).take 3
            continueWith [octalByte octal] arguments (text.drop octal.length)
          else continueWith (92 :: String.utf8EncodeChar next) arguments rest
    else if c = '%' then
      let flags := text.takeWhile fun flag => flag = '-' || flag = '0'
      let afterFlags := text.drop flags.length
      let width := afterFlags.takeWhile Char.isDigit
      match afterFlags.drop width.length with
      | [] => ([37], arguments)
      | conversion :: rest =>
        if conversion = '%' then continueWith [37] arguments rest
        else match convert conversion (arguments.head?.getD []) with
          | none => continueWith [37, 0] arguments rest
          | some bytes =>
            let missing := (numberOf width).toNat - bytes.length
            let fill : UInt8 := if flags.contains '0' then 48 else 32
            let padding := List.replicate missing fill
            let padded := if flags.contains '-' then bytes ++ padding else padding ++ bytes
            continueWith padded (arguments.drop 1) rest
    else continueWith (String.utf8EncodeChar c) arguments text

/-- Writes a format as often as it takes to use up the arguments. -/
def formatAll (pattern : Text) : (fuel : Nat) → (arguments : List Text) → Bytes
  | 0, _ => []
  | fuel + 1, arguments =>
    let (bytes, left) := format (pattern.length + 1) arguments pattern
    if left.isEmpty ∨ left.length = arguments.length then bytes
    else bytes ++ formatAll pattern fuel left

def printf (arguments : List Text) : UtilityRun :=
  match arguments with
  | [] => { status := 2 }
  | pattern :: rest => { output := formatAll pattern (rest.length + 1) rest }

/-! ### Filters -/

/-- Copies files, or its input if there are none. -/
def cat (files : FileTree) (arguments : List Text) (input : Bytes) : UtilityRun :=
  if arguments.isEmpty then { output := input, readsInput := true }
  else arguments.foldl (fun run argument =>
    if argument = ['-'] then { run with output := run.output ++ input, readsInput := true }
    else match files.read (String.ofList argument) with
      | .ok content => { run with output := run.output ++ content }
      | .error cause =>
        let reason := ("cat: ".toList ++ argument ++ ": ".toList) ++
          (cause.message.toList.takeWhile (· ≠ '(')).dropLast
        { run with errors := run.errors ++ Text.encode (reason ++ ['\n']), status := 1 }) {}

/-- Counts bytes, lines or words of its input. -/
def wc (arguments : List Text) (input : Bytes) : UtilityRun :=
  let isBlank (b : UInt8) : Bool := b = 32 || (9 ≤ b && b ≤ 13)
  let words := (input.foldl (fun (count, inWord) b =>
    if isBlank b then (count, false) else (if inWord then count else count + 1, true)) (0, false)).1
  let counts := [('l', input.count 10), ('w', words), ('c', input.length)]
  let options := arguments.flatMap (·.drop 1)
  let shown := counts.filter fun (option, _) => options.isEmpty || options.contains option
  let columns := shown.map fun (_, count) => digits 10 count
  let line := match columns with
    | [column] => column
    | _ => [' '].intercalate (columns.map (pad 7 false ' '))
  { output := Text.encode (line ++ ['\n']), readsInput := true }

/-- The bytes of a set of characters, with its ranges filled in. -/
def byteSet : Bytes → Bytes
  | low :: 45 :: high :: rest =>
    (List.range (high.toNat + 1 - low.toNat)).map (fun i => low + UInt8.ofNat i) ++ byteSet rest
  | b :: rest => b :: byteSet rest
  | [] => []

/-- Deletes or replaces bytes of its input. -/
def tr (arguments : List Text) (input : Bytes) : UtilityRun :=
  let set (argument : Text) : Bytes := byteSet (unescape false (argument.length + 1) argument).1
  match arguments with
  | [option, deleted] =>
    if option = ['-', 'd'] then
      let bytes := set deleted
      { output := input.filter fun b => !bytes.contains b, readsInput := true }
    else
      let targets := set deleted
      let sources := set option
      let replace (b : UInt8) : UInt8 :=
        if sources.contains b then (targets[sources.idxOf b]?).getD (targets.getLast?.getD b) else b
      { output := input.map replace, readsInput := true }
  | _ => { status := 1 }

/-- The first lines or bytes of its input. -/
def head (arguments : List Text) (input : Bytes) : UtilityRun :=
  let amount (argument : Text) : Nat := (numberOf argument).toNat
  let firstLines (count : Nat) : Bytes :=
    (input.foldl (fun (taken, left) b =>
      if left = 0 then (taken, left) else (b :: taken, if b = 10 then left - 1 else left))
      (([] : Bytes), count)).1.reverse
  let output := match arguments with
    | ['-' :: 'c' :: [], count] => input.take (amount count)
    | ['-' :: 'c' :: count] => input.take (amount count)
    | ['-' :: 'n' :: [], count] => firstLines (amount count)
    | ['-' :: 'n' :: count] => firstLines (amount count)
    | ['-' :: count] => firstLines (amount count)
    | _ => firstLines 10
  { output, readsInput := true }

/-! ### Control -/

/-- Compares words. -/
def test (arguments : List Text) : UtilityRun :=
  let holds := match arguments with
    | [] => false
    | [word] => !word.isEmpty
    | [option, word] =>
      if option = ['-', 'n'] then !word.isEmpty else option = ['-', 'z'] && word.isEmpty
    | [left, operator, right] =>
      if operator = ['='] then left = right
      else if operator = ['!', '='] then left ≠ right
      else if operator = "-eq".toList then numberOf left = numberOf right
      else if operator = "-ne".toList then numberOf left ≠ numberOf right
      else if operator = "-gt".toList then numberOf left > numberOf right
      else if operator = "-lt".toList then numberOf left < numberOf right
      else false
    | _ => false
  { status := if holds then 0 else 1 }

/-- Ends the shell with a status, by default the last one. -/
def exit (lastStatus : Nat) (arguments : List Text) : UtilityRun :=
  let code := match arguments with
    | [] => lastStatus
    | code :: _ => (numberOf code % 256).toNat
  { status := code, effect := .exit code }

/-- The number of a signal given by number or by name. -/
def signalNumber? (name : Text) : Option Nat :=
  if !name.isEmpty && name.all Char.isDigit then some (numberOf name).toNat
  else
    let short := if name.take 3 = ['S', 'I', 'G'] then name.drop 3 else name
    (ExitStatus.signals.find? (·.2.toList = short)).map (·.1)

/-- The signals that a shell passes over: `CHLD`, `CONT`, `URG` and `WINCH`. -/
def ignoredSignals : List Nat :=
  [17, 18, 23, 28]

/-- Sends the shell a signal. -/
def kill (arguments : List Text) : UtilityRun :=
  let (name, target) := match arguments with
    | ['-' :: 's' :: [], name, target] => (name, target)
    | ['-' :: name, target] => (name, target)
    | [target] => ("TERM".toList, target)
    | _ => ([], [])
  match signalNumber? name with
  | some number =>
    if target ≠ shellProcess then { status := 1 }
    else if number = 0 || ignoredSignals.contains number then {}
    else { effect := .signal number }
  | none => { status := 1 }

/-- Runs a utility, if there is one of that name. -/
def utility? (files : FileTree) (lastStatus : Nat) (name : Text) (arguments : List Text)
    (input : Bytes) : Option UtilityRun :=
  match String.ofList name with
  | "cat" => some (cat files arguments input)
  | "echo" => some (echo arguments)
  | "printf" => some (printf arguments)
  | "wc" => some (wc arguments input)
  | "tr" => some (tr arguments input)
  | "head" => some (head arguments input)
  | "exit" => some (exit lastStatus arguments)
  | "kill" => some (kill arguments)
  | "test" => some (test arguments)
  | "[" => some (test arguments.dropLast)
  | "true" | ":" | "sleep" => some {}
  | "false" => some { status := 1 }
  | _ => none

end Lipi.Shell
