import Mathlib.Data.List.Basic
import Lipi.Proofs.Json.Reader

/-!
# Written documents are read back

What is written of a document is read as its lexemes (`readAs_renderAt`), and the lexemes of a
document are read as the document (`foldlM_lexemes`). So reading undoes writing for every document
(`parse?_render`).
-/

namespace Lipi.Json

variable {mode next : Mode} {c : Char} {codes : List Nat}

theorem readLexemes_cons (mode : Mode) (c : Char) (rest : Text) :
    readLexemes mode (c :: rest) =
      (mode.step? c).bind fun (made, next) => (readLexemes next rest).map (made ++ ·) := rfl

theorem readLexemes_of_made {made : List Lexeme} (step : mode.step? c = some (made, next))
    (rest : Text) : readLexemes mode (c :: rest) = (readLexemes next rest).map (made ++ ·) := by
  rw [readLexemes_cons, step]
  rfl

theorem readLexemes_of_step (step : mode.step? c = some ([], next)) (rest : Text) :
    readLexemes mode (c :: rest) = readLexemes next rest := by
  rw [readLexemes_of_made step]
  simp

/-! ### Texts -/

theorem ofCodes?_map_toNat (content : Text) : ofCodes? (content.map Char.toNat) = some content := by
  induction content with
  | nil => rfl
  | cons c content ih =>
    have valid : c.toNat < 0xD800 ∨ 0xDFFF < c.toNat ∧ c.toNat < 0x110000 := c.valid
    have notFirst : isFirstHalf c.toNat = false := by
      unfold isFirstHalf
      rw [Bool.and_eq_false_iff, decide_eq_false_iff_not, decide_eq_false_iff_not]
      omega
    have notSecond : isSecondHalf c.toNat = false := by
      unfold isSecondHalf
      rw [Bool.and_eq_false_iff, decide_eq_false_iff_not, decide_eq_false_iff_not]
      omega
    rw [List.map_cons, ofCodes?.eq_def]
    simp only [notFirst, notSecond, ih, Char.ofNat_toNat]
    rfl

theorem letters_of_shortEscapes :
    ∀ pair ∈ shortEscapes, pair.2 ≠ 'u' ∧ letters.lookup pair.2 = some pair.1 := by
  decide

theorem hexDigit?_digitChar : ∀ digit < 16, hexDigit? (Nat.digitChar digit) = some digit := by
  decide

theorem readLexemes_backslash (codes : List Nat) (rest : Text) :
    readLexemes (.text codes) ('\\' :: rest) = readLexemes (.escape codes) rest :=
  readLexemes_of_step rfl rest

theorem readLexemes_letter (pair : Char × Char) (member : pair ∈ shortEscapes) (rest : Text) :
    readLexemes (.escape codes) (pair.2 :: rest) =
      readLexemes (.text (codes ++ [pair.1.toNat])) rest := by
  obtain ⟨notCode, meant⟩ := letters_of_shortEscapes pair member
  apply readLexemes_of_step
  rw [Mode.step?, if_neg notCode, meant]
  rfl

theorem readLexemes_hexDigit {digit : Nat} (small : digit < 16) (value left : Nat) (rest : Text) :
    readLexemes (.code codes value left) (Nat.digitChar digit :: rest) =
      readLexemes (if left = 0 then .text (codes ++ [16 * value + digit])
        else .code codes (16 * value + digit) (left - 1)) rest := by
  apply readLexemes_of_step
  rw [Mode.step?, hexDigit?_digitChar digit small]
  rfl

theorem readLexemes_control (control : c.toNat < 0x20) (rest : Text) :
    readLexemes (.escape codes) ('u' :: '0' :: '0' :: controlDigits c ++ rest) =
      readLexemes (.text (codes ++ [c.toNat])) rest := by
  have started : readLexemes (.escape codes) ('u' :: '0' :: '0' :: controlDigits c ++ rest) =
      readLexemes (.code codes 0 1) (controlDigits c ++ rest) :=
    calc readLexemes (.escape codes) ('u' :: '0' :: '0' :: controlDigits c ++ rest)
      _ = readLexemes (.code codes 0 3) ('0' :: '0' :: controlDigits c ++ rest) :=
        readLexemes_of_step rfl _
      _ = readLexemes (.code codes 0 2) ('0' :: controlDigits c ++ rest) :=
        readLexemes_of_step rfl _
      _ = readLexemes (.code codes 0 1) (controlDigits c ++ rest) :=
        readLexemes_of_step rfl _
  have code : 16 * (16 * 0 + c.toNat / 16) + c.toNat % 16 = c.toNat := by omega
  rw [started, controlDigits, List.cons_append, List.cons_append, List.nil_append,
    readLexemes_hexDigit (by omega), if_neg (by decide), readLexemes_hexDigit (by omega),
    if_pos rfl, code]

/-- However a character is written, it is read as its code. -/
theorem readLexemes_escape (c : Char) (codes : List Nat) (rest : Text) :
    readLexemes (.text codes) (escape c ++ rest) =
      readLexemes (.text (codes ++ [c.toNat])) rest := by
  unfold escape
  cases found : shortEscapes.lookup c with
  | some letter =>
    obtain ⟨front, back, split, -⟩ := List.lookup_eq_some_iff.mp found
    rw [List.cons_append, List.cons_append, List.nil_append, readLexemes_backslash]
    exact readLexemes_letter (c, letter) (by simp [split]) rest
  | none =>
    by_cases control : c.toNat < 0x20
    · simp only [if_pos control]
      exact (readLexemes_backslash codes _).trans (readLexemes_control control rest)
    · simp only [if_neg control]
      have plain := List.lookup_eq_none_iff.mp found
      have notQuote : c ≠ '"' := by simpa using plain ('"', '"') (by decide)
      have notBackslash : c ≠ '\\' := by simpa using plain ('\\', '\\') (by decide)
      apply readLexemes_of_step
      rw [Mode.step?, if_neg notQuote, if_neg notBackslash, if_neg control]

theorem readLexemes_flatMap_escape (content : Text) (codes : List Nat) (rest : Text) :
    readLexemes (.text codes) (content.flatMap escape ++ rest) =
      readLexemes (.text (codes ++ content.map Char.toNat)) rest := by
  induction content generalizing codes with
  | nil => rw [List.flatMap_nil, List.map_nil, List.append_nil, List.nil_append]
  | cons c content ih =>
    rw [List.flatMap_cons, List.append_assoc, readLexemes_escape, ih, List.append_assoc,
      List.map_cons, List.singleton_append]

/-! ### Pieces of a document -/

/-- The text does not go on with a digit. -/
def Apart (text : Text) : Prop :=
  ∀ c ∈ text.head?, digit? c = none

theorem Apart.nil : Apart [] := by
  rintro _ ⟨⟩

theorem Apart.cons (notDigit : digit? c = none) (rest : Text) : Apart (c :: rest) := by
  rintro _ ⟨⟩
  exact notDigit

/-- The text is read as the lexemes, and what comes after it is read on its own. A number ends only
where no digit comes. -/
def ReadAs (written : Text) (made : List Lexeme) : Prop :=
  ∀ rest, Apart rest →
    readLexemes .between (written ++ rest) = (readLexemes .between rest).map (made ++ ·)

theorem ReadAs.append {front back : Text} {earlier later : List Lexeme}
    (first : ReadAs front earlier) (second : ReadAs back later) (apart : Apart back) :
    ReadAs (front ++ back) (earlier ++ later) := by
  intro rest apartRest
  have between : Apart (back ++ rest) := by
    cases back with
    | nil => exact apartRest
    | cons c back => exact .cons (apart c rfl) _
  rw [List.append_assoc, first _ between, second rest apartRest, Option.map_map]
  congr 1
  funext made
  exact (List.append_assoc ..).symm

theorem ReadAs.of_step {made : List Lexeme}
    (step : Mode.step? .between c = some (made, .between)) : ReadAs [c] made :=
  fun rest _ => readLexemes_of_made step rest

-- A value may start with a digit, so `ReadAs.append` does not apply where it follows the blank.
theorem ReadAs.after_colon {written : Text} {made : List Lexeme} (value : ReadAs written made) :
    ReadAs (':' :: ' ' :: written) (.colon :: made) := by
  intro rest apart
  have colon : Mode.step? .between ':' = some ([.colon], .between) := rfl
  have blank : Mode.step? .between ' ' = some ([], .between) := rfl
  rw [List.cons_append, List.cons_append, readLexemes_of_made colon, readLexemes_of_step blank,
    value rest apart, Option.map_map]
  rfl

theorem readAs_quote (content : Text) : ReadAs (quote content) [.text content] := by
  intro rest _
  have written : quote content ++ rest = '"' :: (content.flatMap escape ++ '"' :: rest) := by
    simp [quote]
  have opened : Mode.step? .between '"' = some ([], .text []) := rfl
  have closed : Mode.step? (.text (content.map Char.toNat)) '"' =
      some ([.text content], .between) := by
    rw [Mode.step?, if_pos rfl, ofCodes?_map_toNat]
    rfl
  rw [written, readLexemes_of_step opened, readLexemes_flatMap_escape, List.nil_append,
    readLexemes_of_made closed]

theorem digit?_of_isBlank (blank : isBlank c) : digit? c = none := by
  simp only [isBlank, Bool.or_eq_true, decide_eq_true_eq] at blank
  rcases blank with ((rfl | rfl) | rfl) | rfl <;> rfl

theorem readAs_blanks {blanks : Text} (blank : ∀ c ∈ blanks, isBlank c) : ReadAs blanks [] := by
  induction blanks with
  | nil =>
    intro rest _
    simp
  | cons c blanks ih =>
    intro rest apart
    have step : Mode.step? .between c = some ([], .between) := by
      rw [Mode.step?, begin?, if_pos (blank c (by simp))]
    rw [List.cons_append, readLexemes_of_step step]
    exact ih (fun c inside => blank c (by simp [inside])) rest apart

theorem readAs_newLine (depth : Nat) : ReadAs (newLine depth) [] := by
  apply readAs_blanks
  intro c inside
  rcases List.mem_cons.mp inside with rfl | inside
  · rfl
  · rw [List.eq_of_mem_replicate inside]
    rfl

theorem digit?_digitChar : ∀ digit < 10, digit? (Nat.digitChar digit) = some digit := by
  decide

theorem step?_digitChar :
    ∀ digit < 10, Mode.step? .between (Nat.digitChar digit) = some ([], .number digit) := by
  decide

/-- The digits of a number are read one after another. -/
theorem readLexemes_toDigits (value : Nat) (rest : Text) :
    readLexemes .between (Nat.toDigits 10 value ++ rest) = readLexemes (.number value) rest := by
  induction value using Nat.strongRecOn generalizing rest with
  | _ value ih =>
    by_cases small : value < 10
    · rw [Nat.toDigits_of_lt_base small]
      exact readLexemes_of_step (step?_digitChar value small) rest
    · have step : Mode.step? (.number (value / 10)) (Nat.digitChar (value % 10)) =
          some ([], .number value) := by
        have positive : value / 10 ≠ 0 := by omega
        have whole : 10 * (value / 10) + value % 10 = value := Nat.div_add_mod value 10
        rw [Mode.step?, digit?_digitChar _ (by omega)]
        simp only [if_neg positive, whole]
      rw [Nat.toDigits_of_base_le (by decide) (by omega), List.append_assoc,
        ih (value / 10) (by omega)]
      exact readLexemes_of_step step rest

theorem readAs_number (value : Nat) : ReadAs (Nat.toDigits 10 value) [.number value] := by
  intro rest apart
  rw [readLexemes_toDigits]
  cases rest with
  | nil => rfl
  | cons c rest =>
    have notDigit : digit? c = none := apart c rfl
    have step : Mode.step? (.number value) c =
        (begin? c).map fun (made, next) => (.number value :: made, next) := by
      rw [Mode.step?, notDigit]
    rw [readLexemes_cons, readLexemes_cons, step, Mode.step?]
    cases begin? c with
    | none => rfl
    | some outcome =>
      obtain ⟨made, next⟩ := outcome
      simp [Function.comp_def]

/-! ### Lexemes of a document -/

mutual

/-- The lexemes of a document. -/
def lexemes : Json → List Lexeme
  | .text content => [.text content]
  | .number value => [.number value]
  | .object [] => [.opening, .closing]
  | .object (field :: rest) => .opening :: fieldLexemes field ++ restLexemes rest ++ [.closing]

def fieldLexemes : String × Json → List Lexeme
  | (name, value) => .text name.toList :: .colon :: lexemes value

def restLexemes : List (String × Json) → List Lexeme
  | [] => []
  | field :: rest => .comma :: fieldLexemes field ++ restLexemes rest

end

theorem apart_newLine (depth : Nat) (rest : Text) : Apart (newLine depth ++ rest) :=
  .cons rfl _

theorem apart_renderField (depth : Nat) (field : String × Json) (rest : Text) :
    Apart (renderField depth field ++ rest) := by
  rw [renderField, List.append_assoc, List.append_assoc, List.append_assoc]
  exact apart_newLine depth _

theorem apart_renderRest (depth : Nat) (fields : List (String × Json)) {rest : Text}
    (apart : Apart rest) : Apart (renderRest depth fields ++ rest) := by
  cases fields with
  | nil => simpa [renderRest] using apart
  | cons field fields =>
    rw [renderRest]
    exact .cons rfl _

mutual

/-- What is written of a document is read as its lexemes. -/
theorem readAs_renderAt (depth : Nat) : (document : Json) →
    ReadAs (renderAt depth document) (lexemes document)
  | .text content => by
    rw [renderAt, lexemes]
    exact readAs_quote content
  | .number value => by
    rw [renderAt, lexemes]
    exact readAs_number value
  | .object [] => by
    rw [renderAt, lexemes]
    have opened : ReadAs ['\x7b'] [.opening] := .of_step rfl
    have closed : ReadAs ['\x7d'] [.closing] := .of_step rfl
    exact opened.append closed (.cons rfl _)
  | .object (field :: rest) => by
    have opened : ReadAs ['\x7b'] [.opening] := .of_step rfl
    have closed : ReadAs (newLine (depth - 1) ++ ['\x7d']) ([] ++ [.closing]) :=
      (readAs_newLine _).append (.of_step rfl) (.cons rfl _)
    have fields := ((readAs_renderField depth field).append
      ((readAs_renderRest depth rest).append closed (apart_newLine _ _))
      (apart_renderRest depth rest (apart_newLine _ _)))
    rw [renderAt, lexemes]
    simpa using opened.append fields (apart_renderField _ _ _)

theorem readAs_renderField (depth : Nat) : (field : String × Json) →
    ReadAs (renderField depth field) (fieldLexemes field)
  | (name, value) => by
    have named : ReadAs (newLine depth ++ quote name.toList) ([] ++ [.text name.toList]) :=
      (readAs_newLine depth).append (readAs_quote name.toList) (.cons rfl _)
    have value := (readAs_renderAt (depth + 1) value).after_colon
    rw [renderField, fieldLexemes]
    simpa using named.append value (.cons rfl _)

theorem readAs_renderRest (depth : Nat) : (fields : List (String × Json)) →
    ReadAs (renderRest depth fields) (restLexemes fields)
  | [] => by
    intro rest _
    simp [renderRest, restLexemes]
  | field :: rest => by
    have comma : ReadAs [','] [.comma] := .of_step rfl
    have fields := (readAs_renderField depth field).append (readAs_renderRest depth rest)
      (by simpa using apart_renderRest depth rest (Apart.nil))
    rw [renderRest, restLexemes]
    exact comma.append fields (apart_renderField _ _ _)

end

/-! ### Documents -/

theorem foldlM_append_of_some {front back : List Lexeme} {stage next : Stage}
    (first : front.foldlM Stage.step? stage = some next) :
    (front ++ back).foldlM Stage.step? stage = back.foldlM Stage.step? next := by
  rw [List.foldlM_append, first]
  rfl

theorem foldlM_cons_of_some {lexeme : Lexeme} {rest : List Lexeme} {stage next : Stage}
    (step : stage.step? lexeme = some next) :
    (lexeme :: rest).foldlM Stage.step? stage = rest.foldlM Stage.step? next := by
  rw [List.foldlM_cons, step]
  rfl

mutual

/-- The lexemes of a document are read as the document. -/
theorem foldlM_lexemes : (document : Json) → (outer : List OpenField) →
    document.lexemes.foldlM Stage.step? (.value outer) = some (Stage.after document outer)
  | .text content, outer => by
    rw [lexemes]
    rfl
  | .number value, outer => by
    rw [lexemes]
    rfl
  | .object [], outer => by
    rw [lexemes]
    rfl
  | .object (field :: rest), outer => by
    have opened : Stage.step? (.value outer) .opening = some (.firstName outer) := rfl
    -- A first name comes where the object could also end, a later one where it could not.
    have first := foldlM_fieldLexemes field fun _ => (rfl : Stage.step? (.firstName outer) _ = _)
    rw [lexemes, List.append_assoc, List.cons_append, foldlM_cons_of_some opened,
      foldlM_append_of_some first, foldlM_append_of_some (foldlM_restLexemes rest outer _)]
    rfl

theorem foldlM_fieldLexemes : (field : String × Json) → {stage : Stage} → {outer : List OpenField} →
    {before : List (String × Json)} →
    (named : ∀ name, stage.step? (.text name) = some (.colon outer before (String.ofList name))) →
    (fieldLexemes field).foldlM Stage.step? stage = some (.fieldEnd outer (before ++ [field]))
  | (name, value), stage, outer, before, named => by
    have separated : Stage.step? (.colon outer before name) .colon =
        some (.value (⟨before, name⟩ :: outer)) := rfl
    rw [fieldLexemes, foldlM_cons_of_some (named name.toList), String.ofList_toList,
      foldlM_cons_of_some separated, foldlM_lexemes value]
    rfl

theorem foldlM_restLexemes : (fields : List (String × Json)) → (outer : List OpenField) →
    (before : List (String × Json)) →
    (restLexemes fields).foldlM Stage.step? (.fieldEnd outer before) =
      some (.fieldEnd outer (before ++ fields))
  | [], outer, before => by
    rw [restLexemes, List.append_nil]
    rfl
  | field :: rest, outer, before => by
    have separated : Stage.step? (.fieldEnd outer before) .comma = some (.nextName outer before) :=
      rfl
    have first := foldlM_fieldLexemes field fun _ =>
      (rfl : Stage.step? (.nextName outer before) _ = _)
    rw [restLexemes, List.cons_append, foldlM_cons_of_some separated, foldlM_append_of_some first,
      foldlM_restLexemes rest, List.append_assoc, List.singleton_append]

end

/-- Every document is read back from what is written of it, whatever blanks come after. -/
theorem parse?_render (document : Json) {blanks : Text} (blank : ∀ c ∈ blanks, isBlank c) :
    parse? (document.render ++ blanks) = some document := by
  have apart : Apart blanks :=
    fun c first => digit?_of_isBlank (blank c (List.mem_of_mem_head? first))
  have written : readLexemes .between (document.render ++ blanks) = some document.lexemes := by
    have whole := (readAs_renderAt 1 document).append (readAs_blanks blank) apart [] .nil
    simpa [render, readLexemes, Mode.finish?] using whole
  unfold parse?
  rw [written]
  show (document.lexemes.foldlM Stage.step? (.value [])).bind Stage.document? = _
  rw [foldlM_lexemes]
  rfl

end Lipi.Json
