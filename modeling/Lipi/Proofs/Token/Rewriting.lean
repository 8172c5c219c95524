import Lipi.Proofs.Program.Normalization
import Lipi.Proofs.Text.Balance
import Lipi.Proofs.Token.Runs

/-!
# Rewriting of keywords

Rewriting replaces some runs of word characters by JavaScript, which has nothing in it that other
stages look at: no quote, backslash, slash, brace, terminator, newline or white space. So rewriting
can change places with the stages that work on lines (`stripComments_replaceKeywords`,
`terminateStatements_replaceKeywords`), and it finds nothing more to do in its own result
(`replaceKeywords_replaceKeywords`).
-/

namespace Lipi.Text

/-! ### Rewriting along runs -/

/-- The JavaScript for a run in front of a text. -/
def runHost (run rest : Text) : Text :=
  Token.host ⟨Token.runKind run rest, run⟩

@[simp]
theorem replaceKeywords_nil : replaceKeywords [] = [] := by
  simp [replaceKeywords]

theorem replaceKeywords_symbol {c : Char} (other : isWordChar c = false) (text : Text) :
    replaceKeywords (c :: text) = c :: replaceKeywords text := by
  simp [replaceKeywords, Token.tokenize_symbol other, Token.host]

theorem replaceKeywords_run {run rest : Text} (isRun : IsRun run) (border : EndsRun rest) :
    replaceKeywords (run ++ rest) = runHost run rest ++ replaceKeywords rest := by
  simp [replaceKeywords, Token.tokenize_run isRun border, runHost]

theorem replaceKeywords_append {front back : Text} (seam : Token.Seam front back) :
    replaceKeywords (front ++ back) = replaceKeywords front ++ replaceKeywords back := by
  simp [replaceKeywords, Token.tokenize_append seam]

theorem replaceKeywords_append_symbol {c : Char} (other : isWordChar c = false)
    (ascii : c.toNat < 0x80) (before after : Text) :
    replaceKeywords (before ++ c :: after) = replaceKeywords before ++ c :: replaceKeywords after := by
  have seam : Token.Seam before (c :: after) := by
    right
    intro d first
    cases first
    exact ⟨other, ascii⟩
  rw [replaceKeywords_append seam, replaceKeywords_symbol other]

/-- A run stays, or it spells a keyword and becomes its host text. -/
theorem runHost_cases (run rest : Text) :
    runHost run rest = run ∨
      ∃ keyword : Keyword, keyword.spelling = run ∧ runHost run rest = keyword.host := by
  unfold runHost
  cases kind : Token.runKind run rest with
  | keyword keyword => exact Or.inr ⟨keyword, (Token.text_of_runKind kind).symm, rfl⟩
  | word => exact Or.inl rfl
  | symbol => exact Or.inl rfl

theorem runHost_congr {run rest rest' : Text}
    (same : Token.endsKeyword rest.head? = Token.endsKeyword rest'.head?) :
    runHost run rest = runHost run rest' := by
  unfold runHost
  rw [Token.runKind_congr same]

/-! ### What JavaScript for a run is made of -/

/-- A character of a word or a dot, which has no meaning for other stages. -/
def isPlain (c : Char) : Bool :=
  isWordChar c || c = '.'

theorem IsRun.isPlain {run : Text} (isRun : IsRun run) : ∀ c ∈ run, isPlain c := by
  intro c member
  simp [Text.isPlain, isRun.isWordChar c member]

theorem isPlain_host (keyword : Keyword) : ∀ c ∈ keyword.host, isPlain c :=
  List.all_eq_true.mp (by cases keyword <;> decide)

theorem ascii_host (keyword : Keyword) : ∀ c ∈ keyword.host, c.toNat < 0x80 := by
  have ascii : keyword.host.all (·.toNat < 0x80) := by cases keyword <;> decide
  simpa using ascii

theorem isWordChar_head?_host (keyword : Keyword) :
    ∃ c tail, keyword.host = c :: tail ∧ isWordChar c := by
  cases keyword <;> exact ⟨_, _, rfl, by decide⟩

theorem ne_of_isPlain {c : Char} (plain : isPlain c) (special : Char)
    (other : isPlain special = false) : c ≠ special := by
  rintro rfl
  rw [other] at plain
  cases plain

theorem isPlain_runHost {run : Text} (isRun : IsRun run) (rest : Text) :
    ∀ c ∈ runHost run rest, isPlain c := by
  rcases runHost_cases run rest with same | ⟨keyword, -, same⟩ <;> rw [same]
  · exact isRun.isPlain
  · exact isPlain_host keyword

theorem isWordChar_head?_runHost {run : Text} (isRun : IsRun run) (rest : Text) :
    ∃ c tail, runHost run rest = c :: tail ∧ isWordChar c := by
  rcases runHost_cases run rest with same | ⟨keyword, -, same⟩ <;> rw [same]
  · obtain ⟨c, tail, rfl⟩ := List.exists_cons_of_ne_nil isRun.ne_nil
    exact ⟨c, tail, rfl, isRun.isWordChar c (by simp)⟩
  · exact isWordChar_head?_host keyword

theorem head?_replaceKeywords {text : Text} (border : EndsRun text) :
    (replaceKeywords text).head? = text.head? := by
  cases text with
  | nil => simp
  | cons c text => rw [replaceKeywords_symbol (border c (by simp))]; rfl

theorem EndsRun.replaceKeywords {text : Text} (border : EndsRun text) :
    EndsRun (Text.replaceKeywords text) := by
  intro c first
  rw [head?_replaceKeywords border] at first
  exact border c first

/-! ### Rewriting twice -/

/-- A run that spells no keyword. -/
structure IsForeign (run : Text) : Prop extends IsRun run where
  ofSpelling?_eq_none : Keyword.ofSpelling? run = none

theorem IsForeign.of_all {run : Text} (someChar : run ≠ []) (words : run.all Text.isWordChar)
    (foreign : Keyword.ofSpelling? run = none) : IsForeign run :=
  ⟨.of_all someChar words, foreign⟩

/-- The JavaScript for a keyword is a run or has a dot between two, and none of them spells a
keyword. -/
theorem isForeign_host (keyword : Keyword) :
    IsForeign keyword.host ∨ ∃ object method, keyword.host = object ++ '.' :: method ∧
      IsForeign object ∧ IsForeign method := by
  cases keyword
  case print =>
    exact .inr ⟨"console".toList, "log".toList, rfl, .of_all (by decide) (by decide) (by decide),
      .of_all (by decide) (by decide) (by decide)⟩
  all_goals exact .inl (.of_all (by decide) (by decide) (by decide))

theorem isWordChar_dot : isWordChar '.' = false := by
  decide

theorem replaceKeywords_foreign {run rest : Text} (foreign : IsForeign run)
    (border : EndsRun rest) : replaceKeywords (run ++ rest) = run ++ replaceKeywords rest := by
  rw [replaceKeywords_run foreign.toIsRun border]
  simp [runHost, Token.runKind, foreign.ofSpelling?_eq_none, Token.host]

theorem replaceKeywords_host (keyword : Keyword) {rest : Text} (border : EndsRun rest) :
    replaceKeywords (keyword.host ++ rest) = keyword.host ++ replaceKeywords rest := by
  rcases isForeign_host keyword with foreign | ⟨object, method, shape, isObject, isMethod⟩
  · exact replaceKeywords_foreign foreign border
  · have dotted : EndsRun ('.' :: (method ++ rest)) := EndsRun.cons isWordChar_dot _
    rw [shape, List.append_assoc, List.cons_append, replaceKeywords_foreign isObject dotted,
      replaceKeywords_symbol isWordChar_dot, replaceKeywords_foreign isMethod border,
      List.append_assoc, List.cons_append]

theorem replaceKeywords_replaceKeywords (text : Text) :
    replaceKeywords (replaceKeywords text) = replaceKeywords text := by
  induction text using runs_induction with
  | nil => simp
  | symbol c text other ih => rw [replaceKeywords_symbol other, replaceKeywords_symbol other, ih]
  | run run rest isRun border ih =>
    rw [replaceKeywords_run isRun border]
    rcases runHost_cases run rest with same | ⟨keyword, -, same⟩
    · have again : runHost run (replaceKeywords rest) = runHost run rest :=
        runHost_congr (by rw [head?_replaceKeywords border])
      rw [same, replaceKeywords_run isRun border.replaceKeywords, again, same, ih]
    · rw [same, replaceKeywords_host keyword border.replaceKeywords, ih]

/-! ### Rewriting and lines -/

theorem mem_replaceKeywords {c : Char} {text : Text} (member : c ∈ replaceKeywords text) :
    c ∈ text ∨ isPlain c := by
  induction text using runs_induction with
  | nil => simp at member
  | symbol d text other ih =>
    rw [replaceKeywords_symbol other, List.mem_cons] at member
    rcases member with rfl | member
    · simp
    · exact (ih member).imp_left (List.mem_cons_of_mem d)
  | run run rest isRun border ih =>
    rw [replaceKeywords_run isRun border, List.mem_append] at member
    rcases member with member | member
    · exact Or.inr (isPlain_runHost isRun rest c member)
    · exact (ih member).imp_left (List.mem_append_right run)

theorem newline_not_mem_replaceKeywords (line : Text) (single : '\n' ∉ line) :
    '\n' ∉ replaceKeywords line := by
  intro member
  rcases mem_replaceKeywords member with present | plain
  · exact single present
  · exact absurd plain (by decide)

theorem replaceKeywords_joinLines (pieces : List Text) :
    replaceKeywords (joinLines pieces) = joinLines (pieces.map replaceKeywords) := by
  induction pieces with
  | nil => simp [joinLines]
  | cons line rest ih =>
    cases rest with
    | nil => simp [joinLines]
    | cons next rest =>
      rw [joinLines, replaceKeywords_append_symbol (by decide) (by decide), ih]
      · simp [joinLines]
      · simp

theorem replaceKeywords_eq_mapLines (text : Text) :
    replaceKeywords text = mapLines replaceKeywords text := by
  rw [mapLines, ← replaceKeywords_joinLines, joinLines_lines]

theorem lines_replaceKeywords (text : Text) :
    lines (replaceKeywords text) = (lines text).map replaceKeywords := by
  rw [replaceKeywords_eq_mapLines text]
  exact lines_mapLines newline_not_mem_replaceKeywords text

theorem mapLines_replaceKeywords {f : Text → Text}
    (single : ∀ line, '\n' ∉ line → '\n' ∉ f line)
    (commutes : ∀ line, f (replaceKeywords line) = replaceKeywords (f line)) (text : Text) :
    mapLines f (replaceKeywords text) = replaceKeywords (mapLines f text) := by
  rw [replaceKeywords_eq_mapLines text, mapLines_mapLines f newline_not_mem_replaceKeywords,
    replaceKeywords_eq_mapLines (mapLines f text), mapLines_mapLines replaceKeywords single]
  simp only [commutes]

/-! ### Rewriting and comments -/

theorem beforeComment_plain (quote : Option Quote) {plain : Text} (allPlain : ∀ c ∈ plain, isPlain c)
    (rest : Text) : beforeComment quote (plain ++ rest) = plain ++ beforeComment quote rest := by
  apply beforeComment_append
  intro c member special
  have noPlain : ['\\', '/', '\'', '"'].all (!isPlain ·) := by decide
  have other := List.all_eq_true.mp noPlain c special
  rw [allPlain c member] at other
  cases other

theorem afterBackslash_plain (quote : Option Quote) {plain : Text} (someChar : plain ≠ [])
    (allPlain : ∀ c ∈ plain, isPlain c) (rest : Text) :
    afterBackslash quote (plain ++ rest) = plain ++ beforeComment quote rest := by
  obtain ⟨c, plain, rfl⟩ := List.exists_cons_of_ne_nil someChar
  rw [List.cons_append, afterBackslash,
    beforeComment_plain quote fun d member => allPlain d (List.mem_cons_of_mem _ member)]
  rfl

theorem head?_replaceKeywords_eq_some_iff {c : Char} (other : isWordChar c = false) (text : Text) :
    (replaceKeywords text).head? = some c ↔ text.head? = some c := by
  induction text using runs_induction with
  | nil => simp
  | symbol d text symbol _ => rw [replaceKeywords_symbol symbol]; rfl
  | run run rest isRun border _ =>
    -- Both texts start with a character of a word here.
    obtain ⟨d, tail, shape, word⟩ := isWordChar_head?_runHost isRun rest
    obtain ⟨e, run', rfl⟩ := List.exists_cons_of_ne_nil isRun.ne_nil
    have word' := isRun.isWordChar e (by simp)
    rw [replaceKeywords_run isRun border, shape]
    simp only [List.cons_append, List.head?_cons, Option.some.injEq]
    constructor <;> rintro rfl <;> simp_all

/-- What is kept of a line starts as the line does, unless a comment starts it. -/
theorem head?_beforeComment (quote : Option Quote) (text : Text) :
    (beforeComment quote text).head? = text.head? ∨
      (beforeComment quote text).head? = none ∧ text.head? = some '/' := by
  fun_cases beforeComment quote text with
  | case1 => exact Or.inl rfl
  | case2 => exact Or.inl rfl
  | case3 => exact Or.inl rfl
  | case4 c text _ comment => exact Or.inr ⟨rfl, by simp [comment.2.1]⟩
  | case5 => exact Or.inl rfl

theorem EndsRun.beforeComment {text : Text} (border : EndsRun text) (quote : Option Quote) :
    EndsRun (Text.beforeComment quote text) ∧
      Token.endsKeyword (Text.beforeComment quote text).head? = Token.endsKeyword text.head? := by
  unfold EndsRun
  rcases head?_beforeComment quote text with same | ⟨none, slash⟩
  · rw [same]
    exact ⟨border, rfl⟩
  · rw [none, slash]
    exact ⟨by simp, by decide⟩

/-- Comments are found in the same places after rewriting. The second part is what the scan does
after a backslash, which may take the first character of a run along. -/
theorem beforeComment_replaceKeywords (line : Text) : ∀ quote,
    beforeComment quote (replaceKeywords line) = replaceKeywords (beforeComment quote line) ∧
      afterBackslash quote (replaceKeywords line) = replaceKeywords (afterBackslash quote line) := by
  induction line using runs_induction with
  | nil => intro quote; simp [beforeComment, afterBackslash]
  | symbol c text other ih =>
    intro quote
    rw [replaceKeywords_symbol other]
    refine ⟨?_, ?_⟩
    · by_cases escape : c = '\\'
      · subst escape
        rw [beforeComment_backslash, beforeComment_backslash, replaceKeywords_symbol other,
          (ih quote).2]
      · by_cases comment : quote = none ∧ c = '/' ∧ text.head? = some '/'
        · have second := (head?_replaceKeywords_eq_some_iff (by decide) text).mpr comment.2.2
          rw [beforeComment_comment comment.1 comment.2.1 second,
            beforeComment_comment comment.1 comment.2.1 comment.2.2, replaceKeywords_nil]
        · have noComment : ¬ (quote = none ∧ c = '/' ∧ (replaceKeywords text).head? = some '/') := by
            rintro ⟨outside, slash, second⟩
            exact comment ⟨outside, slash,
              (head?_replaceKeywords_eq_some_iff (by decide) text).mp second⟩
          rw [beforeComment_cons escape noComment, beforeComment_cons escape comment,
            replaceKeywords_symbol other, (ih _).1]
    · rw [afterBackslash, afterBackslash, replaceKeywords_symbol other, (ih quote).1]
  | run run rest isRun border ih =>
    intro quote
    obtain ⟨c, tail, shape, -⟩ := isWordChar_head?_runHost isRun rest
    have someChar : runHost run rest ≠ [] := by simp [shape]
    obtain ⟨border', same⟩ := border.beforeComment quote
    -- The run is rewritten in the same way, whether the comment after it is there or not.
    have kept : replaceKeywords (run ++ beforeComment quote rest) =
        runHost run rest ++ beforeComment quote (replaceKeywords rest) := by
      rw [replaceKeywords_run isRun border', runHost_congr same, (ih quote).1]
    rw [replaceKeywords_run isRun border]
    refine ⟨?_, ?_⟩
    · rw [beforeComment_plain quote (isPlain_runHost isRun rest),
        beforeComment_plain quote isRun.isPlain, kept]
    · rw [afterBackslash_plain quote someChar (isPlain_runHost isRun rest),
        afterBackslash_plain quote isRun.ne_nil isRun.isPlain, kept]

theorem stripComments_replaceKeywords (text : Text) :
    stripComments (replaceKeywords text) = replaceKeywords (stripComments text) :=
  mapLines_replaceKeywords newline_not_mem_stripLine
    (fun line => (beforeComment_replaceKeywords line none).1) text

/-! ### Rewriting and terminators -/

theorem not_isSpace_of_isPlain {c : Char} (plain : isPlain c) : isSpace c = false := by
  by_contra space
  rw [Bool.not_eq_false] at space
  have other := isWordChar_of_isSpace space
  simp only [isPlain, other, Bool.false_or, decide_eq_true_eq] at plain
  subst plain
  exact absurd space (by decide)

theorem lastVisible?_plain {plain : Text} (someChar : plain ≠ []) (allPlain : ∀ c ∈ plain, isPlain c) :
    ∃ c, lastVisible? plain = some c ∧ isPlain c := by
  cases last : lastVisible? plain with
  | none =>
    obtain ⟨c, rest, rfl⟩ := List.exists_cons_of_ne_nil someChar
    have space := lastVisible?_eq_none_iff.mp last c (by simp)
    rw [not_isSpace_of_isPlain (allPlain c (by simp))] at space
    cases space
  | some c =>
    have member : c ∈ plain := by simpa using List.mem_of_find?_eq_some last
    exact ⟨c, rfl, allPlain c member⟩

theorem lastVisible?_replaceKeywords (text : Text) :
    lastVisible? (replaceKeywords text) = lastVisible? text ∨
      ∃ c d, lastVisible? (replaceKeywords text) = some c ∧ lastVisible? text = some d ∧
        isPlain c ∧ isPlain d := by
  induction text using runs_induction with
  | nil => simp
  | symbol c text other ih =>
    rw [replaceKeywords_symbol other, lastVisible?_cons c (replaceKeywords text),
      lastVisible?_cons c text]
    rcases ih with same | ⟨d, e, after, before, plain⟩
    · exact Or.inl (by rw [same])
    · exact Or.inr ⟨d, e, by simp [after], by simp [before], plain⟩
  | run run rest isRun border ih =>
    obtain ⟨first, tail, shape, -⟩ := isWordChar_head?_runHost isRun rest
    obtain ⟨c, hostLast, hostPlain⟩ :=
      lastVisible?_plain (by simp [shape]) (isPlain_runHost isRun rest)
    obtain ⟨d, runLast, runPlain⟩ := lastVisible?_plain isRun.ne_nil isRun.isPlain
    rw [replaceKeywords_run isRun border, lastVisible?_append, lastVisible?_append]
    rcases ih with same | ⟨e, f, after, before, plain⟩
    · cases visible : lastVisible? rest with
      | none => exact Or.inr ⟨c, d, by simp [same, visible, hostLast], by simp [runLast],
          hostPlain, runPlain⟩
      | some e => exact Or.inl (by simp [same, visible])
    · exact Or.inr ⟨e, f, by simp [after], by simp [before], plain⟩

theorem replaceKeywords_blank {blank : Text} (spaces : ∀ c ∈ blank, isSpace c) (text : Text) :
    replaceKeywords (blank ++ text) = blank ++ replaceKeywords text := by
  induction blank with
  | nil => rfl
  | cons c blank ih =>
    rw [List.cons_append, replaceKeywords_symbol (isWordChar_of_isSpace (spaces c (by simp))),
      ih fun d member => spaces d (List.mem_cons_of_mem _ member), List.cons_append]

theorem trimStart_replaceKeywords (text : Text) :
    trimStart (replaceKeywords text) = replaceKeywords (trimStart text) := by
  obtain ⟨blank, whole, spaces⟩ := exists_eq_append_trimStart text
  have visible : ∀ c ∈ (replaceKeywords (trimStart text)).head?, isSpace c = false := by
    intro c first
    by_contra space
    rw [Bool.not_eq_false] at space
    have same := (head?_replaceKeywords_eq_some_iff (isWordChar_of_isSpace space) _).mp first
    rw [not_isSpace_of_head?_trimStart same] at space
    cases space
  calc trimStart (replaceKeywords text)
      = trimStart (replaceKeywords (blank ++ trimStart text)) := by rw [← whole]
    _ = trimStart (blank ++ replaceKeywords (trimStart text)) := by rw [replaceKeywords_blank spaces]
    _ = trimStart (replaceKeywords (trimStart text)) := trimStart_append_of_isSpace spaces _
    _ = replaceKeywords (trimStart text) := trimStart_of_not_isSpace visible

theorem commentMarker_replaceKeywords (text : Text) :
    commentMarker <+: replaceKeywords text ↔ commentMarker <+: text := by
  have slash : isWordChar '/' = false := by decide
  have first := head?_replaceKeywords_eq_some_iff slash text
  have shape : ∀ text : Text, commentMarker <+: text ↔
      ∃ rest, text = '/' :: rest ∧ rest.head? = some '/' := by
    intro text
    constructor
    · rintro ⟨after, rfl⟩
      exact ⟨'/' :: after, rfl, rfl⟩
    · rintro ⟨rest, rfl, second⟩
      obtain ⟨after, rfl⟩ := List.head?_eq_some_iff.mp second
      exact ⟨after, rfl⟩
  rw [shape, shape]
  constructor
  · rintro ⟨rest, same, second⟩
    obtain ⟨tail, rfl⟩ := List.head?_eq_some_iff.mp (first.mp (by simp [same]))
    rw [replaceKeywords_symbol slash] at same
    rw [← (List.cons.inj same).2] at second
    exact ⟨tail, rfl, (head?_replaceKeywords_eq_some_iff slash tail).mp second⟩
  · rintro ⟨rest, rfl, second⟩
    exact ⟨replaceKeywords rest, replaceKeywords_symbol slash rest,
      (head?_replaceKeywords_eq_some_iff slash rest).mpr second⟩

theorem terminateLine_replaceKeywords (line : Text) :
    terminateLine (replaceKeywords line) = replaceKeywords (terminateLine line) := by
  have blank : lastVisible? (replaceKeywords line) = none ↔ lastVisible? line = none := by
    rcases lastVisible?_replaceKeywords line with same | ⟨c, d, after, before, -⟩
    · rw [same]
    · simp [after, before]
  have ended : (lastVisible? (replaceKeywords line)).any endsStatement =
      (lastVisible? line).any endsStatement := by
    have plainOpen : ∀ c, isPlain c → endsStatement c = false := by
      intro c plain
      simp [endsStatement, terminator, ne_of_isPlain plain '{' (by decide),
        ne_of_isPlain plain '}' (by decide), ne_of_isPlain plain ';' (by decide)]
    rcases lastVisible?_replaceKeywords line with same | ⟨c, d, after, before, plain, plain'⟩
    · rw [same]
    · simp [after, before, plainOpen c plain, plainOpen d plain']
  have terminated : replaceKeywords (line ++ [terminator]) = replaceKeywords line ++ [terminator] := by
    rw [replaceKeywords_append_symbol (by decide) (by decide), replaceKeywords_nil]
  simp only [terminateLine_eq, blank, ended, trimStart_replaceKeywords, commentMarker_replaceKeywords]
  split
  · rw [replaceKeywords_nil]
  · split
    · rfl
    · split
      · rfl
      · rw [terminated]

theorem terminateStatements_replaceKeywords (text : Text) :
    terminateStatements (replaceKeywords text) = replaceKeywords (terminateStatements text) :=
  mapLines_replaceKeywords newline_not_mem_terminateLine terminateLine_replaceKeywords text

/-! ### Rewriting and braces -/

theorem depthAfter?_plain (depth : Nat) {plain : Text} (allPlain : ∀ c ∈ plain, isPlain c)
    (rest : Text) : depthAfter? '{' '}' depth (plain ++ rest) = depthAfter? '{' '}' depth rest := by
  induction plain with
  | nil => rfl
  | cons c plain ih =>
    have here := allPlain c (by simp)
    rw [List.cons_append, depthAfter?_other (ne_of_isPlain here _ (by decide))
      (ne_of_isPlain here _ (by decide)),
      ih fun d member => allPlain d (List.mem_cons_of_mem _ member)]

theorem depthAfter?_replaceKeywords (depth : Nat) (text : Text) :
    depthAfter? '{' '}' depth (replaceKeywords text) = depthAfter? '{' '}' depth text := by
  induction text using runs_induction generalizing depth with
  | nil => simp
  | symbol c text other ih =>
    rw [replaceKeywords_symbol other, depthAfter?_cons depth c (replaceKeywords text),
      depthAfter?_cons depth c text]
    simp only [ih]
  | run run rest isRun border ih =>
    rw [replaceKeywords_run isRun border, depthAfter?_plain depth (isPlain_runHost isRun rest),
      depthAfter?_plain depth isRun.isPlain, ih]

theorem balanced_replaceKeywords {text : Text} :
    Balanced '{' '}' (replaceKeywords text) ↔ Balanced '{' '}' text := by
  rw [balanced_iff_depthAfter? (by decide), balanced_iff_depthAfter? (by decide),
    depthAfter?_replaceKeywords]

/-! ### Rewriting and words in other scripts -/

/-- A word that is not ASCII is in the rewritten text only where it was before. -/
theorem isInfix_of_replaceKeywords {needle text : Text} (words : ∀ c ∈ needle, isWordChar c)
    (foreign : ∃ c ∈ needle, 0x80 ≤ c.toNat) (present : needle <:+: replaceKeywords text) :
    needle <:+: text := by
  induction text using runs_induction with
  | nil => rwa [replaceKeywords_nil] at present
  | symbol c text other ih =>
    rw [replaceKeywords_symbol other] at present
    rcases List.infix_cons_iff.mp present with ⟨rest, start⟩ | later
    · -- A needle that starts here would start with a character that is in no word.
      obtain ⟨d, member, -⟩ := foreign
      obtain ⟨e, needle', rfl⟩ := List.exists_cons_of_ne_nil (List.ne_nil_of_mem member)
      have first : e = c := (List.cons.inj start).1
      have word := words e (by simp)
      rw [first, other] at word
      cases word
    · exact List.infix_cons (ih later)
  | run run rest isRun border ih =>
    rw [replaceKeywords_run isRun border] at present
    have edge : ∀ c ∈ (replaceKeywords rest).head?, ¬ isWordChar c := fun c first => by
      simp [border.replaceKeywords c first]
    rcases infix_append_cases words edge present with here | later
    · rcases runHost_cases run rest with same | ⟨keyword, -, same⟩ <;> rw [same] at here
      · exact here.trans (List.infix_append' [] run rest)
      · -- What a keyword is rewritten to is ASCII.
        obtain ⟨c, member, large⟩ := foreign
        have small := ascii_host keyword c (here.subset member)
        omega
    · exact (ih later).trans (List.suffix_append run rest).isInfix

end Lipi.Text
