import Lipi.Proofs.Compilation.Surroundings
import Lipi.Proofs.Program.CommentScan

/-!
# Comments have no influence

Whatever a comment says, a program with it compiles to what the program without it compiles to. A
comment cannot be put behind every line: in an open literal, after a backslash or after a slash its
marker would not be read as one. Behind a line that `TakesComment` it is dropped again
(`stripLine_comment`), before any other stage can see it.
-/

namespace Lipi

namespace Text

/-- A comment can be put behind the line: it has one already, or its scan ends outside of literals,
with neither a backslash nor a slash before the end. -/
def TakesComment (line : Text) : Prop :=
  stripLine line ≠ line ∨ scanEnd none line = .reached none ∧ line.getLast? ≠ some '/'

instance (line : Text) : Decidable (TakesComment line) :=
  inferInstanceAs (Decidable (_ ∨ _))

theorem stripLine_comment {line : Text} (takes : TakesComment line) (comment : Text) :
    stripLine (line ++ commentMarker ++ comment) = stripLine line := by
  rw [List.append_assoc]
  by_cases found : scanEnd none line = .comment
  · exact beforeComment_append_of_comment found _
  · have whole : stripLine line = line := Decidable.not_not.mp fun shorter =>
      found (scanEnd_eq_comment_iff.mpr shorter)
    obtain ⟨ends, noSlash⟩ := takes.resolve_left fun shorter => shorter whole
    have cut : beforeComment none (commentMarker ++ comment) = [] := beforeComment_comment rfl rfl rfl
    rw [whole, stripLine, beforeComment_append_of_reached ends fun last => absurd last noSlash, cut,
      List.append_nil]

/-! ### A comment on one line of a text -/

/-- The text with a comment put behind line number `index`. -/
def addComment (text : Text) (index : Nat) (comment : Text) : Text :=
  joinLines ((lines text).modify index (· ++ commentMarker ++ comment))

theorem mem_modify_lines {index : Nat} {comment text piece : Text}
    (member : piece ∈ (lines text).modify index (· ++ commentMarker ++ comment)) :
    ∃ line ∈ lines text, piece = line ∨ piece = line ++ commentMarker ++ comment := by
  obtain ⟨place, found⟩ := List.mem_iff_getElem?.mp member
  rw [List.getElem?_modify] at found
  obtain ⟨line, original, rfl⟩ := Option.map_eq_some_iff.mp found
  refine ⟨line, List.mem_iff_getElem?.mpr ⟨place, original⟩, ?_⟩
  by_cases here : index = place
  · exact .inr (by simp [here])
  · exact .inl (by simp [here])

theorem lines_addComment {comment : Text} (single : '\n' ∉ comment) (index : Nat) (text : Text) :
    lines (addComment text index comment) =
      (lines text).modify index (· ++ commentMarker ++ comment) := by
  apply lines_joinLines
  · intro none
    have count := congrArg List.length none
    rw [List.length_modify, List.length_nil] at count
    exact lines_ne_nil text (List.length_eq_zero_iff.mp count)
  · intro piece member newline
    obtain ⟨line, original, rfl | rfl⟩ := mem_modify_lines member
    · exact newline_not_mem_of_mem_lines original newline
    · have ofLine := newline_not_mem_of_mem_lines original
      simp [commentMarker, ofLine, single] at newline

theorem isInfix_of_cons {needle text : Text} {c : Char} (someChar : needle ≠ []) (other : c ∉ needle)
    (present : needle <:+: c :: text) : needle <:+: text := by
  rcases List.infix_cons_iff.mp present with ⟨rest, start⟩ | later
  · obtain ⟨d, needle, rfl⟩ := List.exists_cons_of_ne_nil someChar
    obtain ⟨rfl, -⟩ := List.cons.inj start
    exact absurd List.mem_cons_self other
  · exact later

/-- No word without slashes comes about by adding a comment. -/
theorem isInfix_of_addComment {needle comment text : Text} {index : Nat} (someChar : needle ≠ [])
    (newline : '\n' ∉ needle) (slash : '/' ∉ needle)
    (present : needle <:+: addComment text index comment) :
    needle <:+: text ∨ needle <:+: comment := by
  have noSlash : ∀ c ∈ needle, c ≠ '/' := fun c member same => slash (same ▸ member)
  obtain ⟨piece, member, inside⟩ := exists_isInfix_of_joinLines someChar newline present
  obtain ⟨line, original, rfl | rfl⟩ := mem_modify_lines member
  · exact .inl (inside.trans (isInfix_of_mem_lines original))
  · rw [List.append_assoc] at inside
    rcases infix_append_cases noSlash (by simp [commentMarker]) inside with ofLine | behind
    · exact .inl (ofLine.trans (isInfix_of_mem_lines original))
    · exact .inr (isInfix_of_cons someChar slash (isInfix_of_cons someChar slash behind))

theorem normalize_addComment {index : Nat} {comment text : Text} (single : '\n' ∉ comment)
    (takes : ∀ line ∈ (lines text)[index]?, TakesComment line) :
    normalize (addComment text index comment) = normalize text := by
  have same : (lines (addComment text index comment)).map normalizeLine =
      (lines text).map normalizeLine := by
    rw [lines_addComment single]
    apply List.ext_getElem?
    intro place
    rw [List.getElem?_map, List.getElem?_map, List.getElem?_modify]
    cases original : (lines text)[place]? with
    | none => rfl
    | some line =>
      by_cases here : index = place
      · subst here
        have dropped : normalizeLine (line ++ commentMarker ++ comment) = normalizeLine line :=
          congrArg terminateLine (stripLine_comment (takes line original) comment)
        simpa using dropped
      · simp [here]
  rw [normalize_eq_mapLines, normalize_eq_mapLines, mapLines, mapLines, same]

end Text

/-- Putting a comment behind a line that takes one changes nothing: the same JavaScript comes of the
program, or the same rejection at the same position. -/
theorem compile_added_comment (options : CompileOptions) {source comment : Text} {index : Nat}
    (sourceStart : ¬ startMarker <:+: source) (sourceEnd : ¬ endMarker <:+: source)
    (commentStart : ¬ startMarker <:+: comment) (commentEnd : ¬ endMarker <:+: comment)
    (single : '\n' ∉ comment)
    (takes : ∀ line ∈ (Text.lines source)[index]?, Text.TakesComment line) :
    (compile options (source.addComment index comment)).result = (compile options source).result := by
  have noStart : ¬ startMarker <:+: source.addComment index comment := fun present =>
    (Text.isInfix_of_addComment (by decide) (by decide) (by decide) present).elim sourceStart
      commentStart
  have noEnd : ¬ endMarker <:+: source.addComment index comment := fun present =>
    (Text.isInfix_of_addComment (by decide) (by decide) (by decide) present).elim sourceEnd commentEnd
  have plain := Text.normalize_addComment single takes
  rw [compile_result, compile_result, Text.extractProgram_of_no_marker noStart noEnd,
    Text.extractProgram_of_no_marker sourceStart sourceEnd]
  simp only [Except.bind, plain]

/-- A marker in quotes, a line with a comment, and a keyword that is outside of the loop. -/
def strayContinue : Text :=
  "मान x = 'a' + \"//\"\nयावत् (x) \x7b // \x7d\nविराम \x7d\nअग्रिम".toList

/-- A comment with all that the stages look for. -/
def busyComment : Text :=
  " विराम' \\ // \x7b यदि\"".toList

theorem strayContinue_added_comment :
    (compile {} strayContinue).result = .error ⟨.outsideLoop, 4, 1, "अग्रिम;".toList⟩ ∧
    (compile {} (strayContinue.addComment 0 busyComment)).result = (compile {} strayContinue).result ∧
    (compile { loopTracking := .counter } (strayContinue.addComment 1 busyComment)).result =
      (compile { loopTracking := .counter } strayContinue).result := by
  have first : ∀ line ∈ (Text.lines strayContinue)[0]?, Text.TakesComment line := by
    decide +kernel
  have second : ∀ line ∈ (Text.lines strayContinue)[1]?, Text.TakesComment line := by
    decide +kernel
  have sourceStart : ¬ startMarker <:+: strayContinue := Text.cut?_eq_none_iff.mp (by decide)
  have sourceEnd : ¬ endMarker <:+: strayContinue := Text.cut?_eq_none_iff.mp (by decide)
  have commentStart : ¬ startMarker <:+: busyComment := Text.cut?_eq_none_iff.mp (by decide)
  have commentEnd : ¬ endMarker <:+: busyComment := Text.cut?_eq_none_iff.mp (by decide)
  refine ⟨by decide +kernel, ?_, ?_⟩
  · exact compile_added_comment _ sourceStart sourceEnd commentStart commentEnd (by decide) first
  · exact compile_added_comment _ sourceStart sourceEnd commentStart commentEnd (by decide) second

end Lipi
