import Lipi.CommandLine.Run
import Lipi.Proofs.Text.Utf8

/-!
# What an execution reports

A runtime that has started takes the program or not, writes two streams of bytes and ends with a
status. `StreamLines` says what the lines of a stream are. `Relays` says which of them an execution
gives and how it ends, and `execution_relays_run` that every execution does so. Output that is valid
UTF-8 is printed as it is, but for the ends of its lines (`printed_eq`).
-/

namespace Lipi

namespace Execution

/-! ### Lines of a stream -/

/-- A line without one carriage return at its end. -/
def withoutReturn (line : Bytes) : Bytes :=
  if line.getLast? = some 0x0D then line.dropLast else line

/-- The lines that a stream is made of. A line ends at a newline, and one carriage return before it
is left out. What comes after the last newline is a line too, unless it is empty. -/
inductive StreamLines : Bytes → List Bytes → Prop where
  | nil : StreamLines [] []
  | unended {line : Bytes} (someByte : line ≠ []) (inner : 0x0A ∉ line) : StreamLines line [line]
  | ended {line stream : Bytes} {lines : List Bytes} (inner : 0x0A ∉ line)
      (later : StreamLines stream lines) :
      StreamLines (line ++ 0x0A :: stream) (withoutReturn line :: lines)

theorem reverse_dropReturn (read : Bytes) :
    (dropReturn read).reverse = withoutReturn read.reverse := by
  unfold withoutReturn
  cases read with
  | nil => rfl
  | cons byte read =>
    rw [dropReturn, List.reverse_cons, List.getLast?_concat, List.dropLast_concat]
    by_cases isReturn : byte = 0x0D
    · rw [if_pos isReturn, if_pos (by rw [isReturn])]
    · rw [if_neg isReturn, if_neg (by simpa using isReturn), List.reverse_cons]

/-- What has been read of a line goes on with the rest of the stream. -/
theorem streamLines_splitLines {read : Bytes} (inner : 0x0A ∉ read) (stream : Bytes) :
    StreamLines (read.reverse ++ stream) (splitLines read stream) := by
  induction stream generalizing read with
  | nil =>
    rw [splitLines, List.append_nil]
    cases read with
    | nil => exact .nil
    | cons byte read => exact .unended (by simp) (by rwa [List.mem_reverse])
  | cons byte stream ih =>
    rw [splitLines]
    by_cases newline : byte = 0x0A
    · subst newline
      have later := ih (List.not_mem_nil (a := 0x0A))
      rw [if_pos rfl, reverse_dropReturn]
      exact .ended (by rwa [List.mem_reverse]) later
    · have later := ih (List.not_mem_cons_of_ne_of_not_mem (Ne.symm newline) inner)
      rw [List.reverse_cons, List.append_assoc] at later
      rw [if_neg newline]
      exact later

theorem splitLines_of_inner {line : Bytes} (inner : 0x0A ∉ line) (read rest : Bytes) :
    splitLines read (line ++ rest) = splitLines (line.reverse ++ read) rest := by
  induction line generalizing read with
  | nil => rfl
  | cons byte line ih =>
    rw [List.mem_cons, not_or] at inner
    rw [List.cons_append, splitLines, if_neg (Ne.symm inner.1), ih inner.2]
    simp

/-- The lines of a stream are those that it is split into. -/
theorem streamLines_iff {stream : Bytes} {lines : List Bytes} :
    StreamLines stream lines ↔ lines = splitLines [] stream := by
  constructor
  · intro made
    induction made with
    | nil => rfl
    | unended someByte inner =>
      have split := splitLines_of_inner inner [] []
      rw [List.append_nil, List.append_nil, splitLines, if_neg (by simpa using someByte),
        List.reverse_reverse] at split
      exact split.symm
    | ended inner later ih =>
      rw [splitLines_of_inner inner, List.append_nil, splitLines, if_pos rfl, reverse_dropReturn,
        List.reverse_reverse, ih]
  · rintro rfl
    exact streamLines_splitLines List.not_mem_nil stream

/-! ### Valid lines -/

theorem isUtf8_withoutReturn {line : Bytes} (valid : Text.IsUtf8 line) :
    Text.IsUtf8 (withoutReturn line) := by
  unfold withoutReturn
  split
  · rename_i last
    obtain ⟨front, rfl⟩ := List.getLast?_eq_some_iff.mp last
    rw [List.dropLast_concat]
    exact (valid.of_append (by decide)).1
  · exact valid

theorem StreamLines.isUtf8 {stream : Bytes} {lines : List Bytes} (made : StreamLines stream lines)
    (valid : Text.IsUtf8 stream) : ∀ line ∈ lines, Text.IsUtf8 line := by
  induction made with
  | nil => simp
  | unended someByte inner => simpa using valid
  | ended inner later ih =>
    obtain ⟨here, rest⟩ := valid.of_append (by decide)
    intro line member
    rcases List.mem_cons.mp member with rfl | member
    · exact isUtf8_withoutReturn here
    · exact ih rest line member

/-- Reading stops at the first line that is not valid. -/
theorem decodeLines_cases (lines : List Bytes) :
    ∃ unread, lines = (decodeLines lines).1.map Text.encode ++ unread ∧
      (∀ line ∈ unread.head?, ¬ Text.IsUtf8 line) ∧
      ((decodeLines lines).2 = true ↔ unread = []) := by
  induction lines with
  | nil => exact ⟨[], rfl, by simp, by simp [decodeLines]⟩
  | cons line lines ih =>
    rw [decodeLines]
    cases read : Text.decode? line with
    | none =>
      refine ⟨line :: lines, rfl, ?_, by simp⟩
      simpa using Text.decode?_eq_none_iff.mp read
    | some text =>
      obtain ⟨unread, split, invalid, ended⟩ := ih
      refine ⟨unread, ?_, invalid, ended⟩
      rw [List.map_cons, Text.decode?_eq_some_iff.mp read, List.cons_append, ← split]

/-! ### Printed lines -/

/-- The bytes with `\n` in place of every `\r\n`. -/
def plainEnds : Bytes → Bytes
  | 0x0D :: 0x0A :: bytes => 0x0A :: plainEnds bytes
  | byte :: bytes => byte :: plainEnds bytes
  | [] => []

/-- The newline that a stream lacks at its end. An empty stream lacks none. -/
def missingEnd (stream : Bytes) : Bytes :=
  if stream = [] ∨ stream.getLast? = some 0x0A then [] else [0x0A]

theorem plainEnds_cons {byte : UInt8} {bytes : Bytes}
    (other : byte = 0x0D → bytes.head? ≠ some 0x0A) :
    plainEnds (byte :: bytes) = byte :: plainEnds bytes := by
  rw [plainEnds]
  rintro rest rfl rfl
  exact other rfl rfl

theorem withoutReturn_cons (byte : UInt8) {line : Bytes} (someByte : line ≠ []) :
    withoutReturn (byte :: line) = byte :: withoutReturn line := by
  unfold withoutReturn
  rw [List.getLast?_cons_of_ne_nil someByte, List.dropLast_cons_of_ne_nil someByte]
  split <;> rfl

theorem plainEnds_unended {line : Bytes} (inner : 0x0A ∉ line) : plainEnds line = line := by
  induction line with
  | nil => rfl
  | cons byte line ih =>
    rw [List.mem_cons, not_or] at inner
    rw [plainEnds_cons, ih inner.2]
    intro _ first
    exact inner.2 (List.mem_of_head? first)

theorem plainEnds_ended {line : Bytes} (inner : 0x0A ∉ line) (stream : Bytes) :
    plainEnds (line ++ 0x0A :: stream) = withoutReturn line ++ 0x0A :: plainEnds stream := by
  have newline : plainEnds (0x0A :: stream) = 0x0A :: plainEnds stream :=
    plainEnds_cons (by intro same; cases same)
  induction line with
  | nil => exact newline
  | cons byte line ih =>
    rw [List.mem_cons, not_or] at inner
    cases line with
    | nil =>
      by_cases isReturn : byte = 0x0D
      · subst isReturn
        rfl
      · rw [List.singleton_append, plainEnds_cons (fun same => absurd same isReturn), newline]
        simp [withoutReturn, isReturn]
    | cons next line =>
      rw [withoutReturn_cons byte (by simp), List.cons_append, plainEnds_cons, ih inner.2,
        List.cons_append]
      intro _ first
      simp only [List.cons_append, List.head?_cons, Option.some.injEq] at first
      exact inner.2 (by simp [first])

theorem missingEnd_ended (line stream : Bytes) :
    missingEnd (line ++ 0x0A :: stream) = missingEnd stream := by
  unfold missingEnd
  cases stream with
  | nil => simp
  | cons byte stream => simp [List.getLast?_append, List.getLast?_cons_cons]

/-- The lines of a stream with newlines after them are the stream with plain ends of lines. -/
theorem StreamLines.flatMap_eq {stream : Bytes} {lines : List Bytes}
    (made : StreamLines stream lines) :
    lines.flatMap (· ++ [0x0A]) = plainEnds stream ++ missingEnd stream := by
  induction made with
  | nil => rfl
  | @unended line someByte inner =>
    have unfinished : line.getLast? ≠ some 0x0A := fun last => inner (List.mem_of_getLast? last)
    rw [plainEnds_unended inner, missingEnd, if_neg (by simp [someByte, unfinished])]
    simp
  | @ended line stream lines inner later ih =>
    rw [plainEnds_ended inner, missingEnd_ended, List.flatMap_cons, ih]
    simp

theorem encode_writeLines (lines : List Text) :
    Text.encode (CommandLine.writeLines (lines.map String.ofList)).toList =
      (lines.map Text.encode).flatMap (· ++ [0x0A]) := by
  have newline : Text.encode "\n".toList = [0x0A] := by decide
  unfold CommandLine.writeLines
  rw [String.toList_join]
  induction lines with
  | nil => rfl
  | cons line lines ih =>
    simp only [List.map_cons, List.flatMap_cons, String.toList_append, String.toList_ofList,
      Text.encode_append, newline, ih]

/-! ### Lines and outcome -/

/-- The execution failed because the program could not be written or output not be read. -/
def LosesContact (execution : Execution) : Prop :=
  ∃ cause, execution.outcome = .error (.lostContact cause)

/-- The execution hands on what the run of a runtime wrote, but for the lines in `unread`. -/
structure Relays (runtime : String) (run : ProgramRun) (execution : Execution)
    (unread : List Bytes) : Prop where
  lines : ∀ lines, StreamLines run.stdout lines ↔ lines = execution.lines.map Text.encode ++ unread
  invalid : ∀ line ∈ unread.head?, ¬ Text.IsUtf8 line
  badOutput : unread ≠ [] → execution.LosesContact
  badMessage : unread = [] → ¬ Text.IsUtf8 run.stderr → execution.LosesContact
  success : unread = [] → Text.IsUtf8 run.stderr →
    (execution.outcome = .ok () ↔ run.status = .code 0)
  script : ∀ message, unread = [] → run.stderr = Text.encode message → run.status ≠ .code 0 →
    Text.trim message ≠ [] →
      execution.outcome = .error (.script (String.ofList (Text.trim message)))
  silent : ∀ message, unread = [] → run.stderr = Text.encode message → run.status ≠ .code 0 →
    Text.trim message = [] →
      execution.outcome = .error (.script (runtime ++ " exited with " ++ run.status.render))
  printed : Text.IsUtf8 run.stdout → unread = [] ∧
    Text.encode (CommandLine.writeLines (execution.lines.map String.ofList)).toList =
      plainEnds run.stdout ++ missingEnd run.stdout

theorem ending_of_invalid {runtime : String} {run : ProgramRun}
    (invalid : ¬ Text.IsUtf8 run.stderr) :
    ending runtime run = .error (.lostContact .invalidUtf8) := by
  rw [ending, Text.decode?_eq_none_iff.mpr invalid]

theorem ending_of_message {runtime : String} {run : ProgramRun} {message : Text}
    (written : Text.encode message = run.stderr) :
    ending runtime run =
      if run.status = .code 0 then .ok ()
      else if Text.trim message = [] then
        .error (.script (runtime ++ " exited with " ++ run.status.render))
      else .error (.script (String.ofList (Text.trim message))) := by
  rw [ending, Text.decode?_eq_some_iff.mpr written]
  simp only [ExitStatus.isSuccess, decide_eq_true_eq, List.isEmpty_iff]
  split
  · rfl
  · split <;> rfl

theorem relays_ofRun (runtime : String) {run : ProgramRun} (took : run.tookInput = true) :
    ∃ unread, Relays runtime run (ofRun runtime run) unread := by
  obtain ⟨unread, split, invalid, ended⟩ := decodeLines_cases (splitLines [] run.stdout)
  have made : ∀ lines, StreamLines run.stdout lines ↔
      lines = (ofRun runtime run).lines.map Text.encode ++ unread := by
    intro lines
    rw [streamLines_iff, ofRun, if_pos took, ← split]
  have outcome : (ofRun runtime run).outcome =
      if unread = [] then ending runtime run else .error (.lostContact .invalidUtf8) := by
    rw [ofRun, if_pos took]
    simp only [ended]
  refine ⟨unread, made, invalid, ?badOutput, ?badMessage, ?success, ?script, ?silent, ?printed⟩
  case badOutput =>
    intro someUnread
    exact ⟨.invalidUtf8, by rw [outcome, if_neg someUnread]⟩
  case badMessage =>
    intro allRead bad
    exact ⟨.invalidUtf8, by rw [outcome, if_pos allRead, ending_of_invalid bad]⟩
  case success =>
    rintro allRead ⟨message, written⟩
    rw [outcome, if_pos allRead, ending_of_message written]
    by_cases succeeded : run.status = .code 0
    · simp [succeeded]
    · rw [if_neg succeeded]
      split <;> simp [succeeded]
  case script =>
    intro message allRead written failed someText
    rw [outcome, if_pos allRead, ending_of_message written.symm, if_neg failed, if_neg someText]
  case silent =>
    intro message allRead written failed noText
    rw [outcome, if_pos allRead, ending_of_message written.symm, if_neg failed, if_pos noText]
  case printed =>
    intro valid
    have all := (made _).mpr rfl
    have allRead : unread = [] := by
      cases unread with
      | nil => rfl
      | cons line unread => exact absurd (all.isUtf8 valid line (by simp)) (invalid line rfl)
    rw [allRead, List.append_nil] at all
    exact ⟨allRead, by rw [encode_writeLines, all.flatMap_eq]⟩

end Execution

/-- What an execution gives with a runtime that starts. If the program cannot be written to it, that
is all that is told. Otherwise the lines of its output come back up to the first that is not valid,
and the outcome is told by the streams first and by the status last. -/
theorem execution_relays_run {start : String → Except SystemError Executable} {runtime : String}
    {executable : Executable} (started : start runtime = .ok executable) (program : Text) :
    let run := executable Execution.arguments (Text.encode program)
    let execution := (execute start runtime program).result
    (run.tookInput = false → execution.lines = [] ∧ execution.LosesContact) ∧
    (run.tookInput = true → ∃ unread, execution.Relays runtime run unread) := by
  intro run execution
  have same : execution = Execution.ofRun runtime run := by
    simp only [execution, execute, started, run]
  rw [same]
  refine ⟨?_, Execution.relays_ofRun runtime⟩
  intro refused
  rw [Execution.ofRun, if_neg (by simp [refused])]
  exact ⟨rfl, .brokenPipe, rfl⟩

/-- A runtime that prints two lines, of which one has a carriage return and the other no end, and
then fails with a message. -/
def failingRuntime : Executable := fun _ _ =>
  { tookInput := true, stdout := Text.encode "a\r\nb\r".toList,
    stderr := Text.encode " oops\n".toList, status := .code 3 }

theorem failingRuntime_relayed :
    let execution := (execute (fun _ => .ok failingRuntime) "./rt" []).result
    Text.encode (CommandLine.writeLines (execution.lines.map String.ofList)).toList =
      Text.encode "a\nb\r\n".toList ∧
    execution.outcome = .error (.script "oops") := by
  intro execution
  let start : String → Except SystemError Executable := fun _ => .ok failingRuntime
  have started : start "./rt" = .ok failingRuntime := rfl
  have reported := execution_relays_run started []
  obtain ⟨unread, relays⟩ := reported.2 rfl
  obtain ⟨allRead, printed⟩ := relays.printed ⟨_, rfl⟩
  exact ⟨printed.trans (by decide), relays.script _ allRead rfl (by decide) (by decide)⟩

end Lipi
