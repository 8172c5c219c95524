import Lipi.CommandLine.Run
import Lipi.Proofs.Json.RoundTrip
import Lipi.Proofs.Settings.Fields

/-!
# The two output formats

A compilation is printed as plain text or as a JSON document. Either output can be made from the
other (`compile_formats_agree`), whatever characters the program or the message holds.
-/

namespace Lipi.CommandLine

/-- Two outcomes of compiling the same source after the same log, one in each format. A program is
printed by both or by none, and so is a refusal. -/
structure SameNews (log : String) (plain json : Outcome) : Prop where
  program (program : Text) :
    plain = { code := 0, stdout := String.ofList program ++ "\n", stderr := log } ↔
      json.code = 0 ∧ json.stderr = log ∧
        Json.parse? json.stdout.toList = some (.object [("program", .text program)])
  refusal (line : String) :
    plain = { code := 1, stdout := "", stderr := log ++ ("Error: " ++ line ++ "\n") } ↔
      json.code = 1 ∧ json.stderr = log ∧
        ∃ (message snippet lineText kind : Text) (row column : Nat),
          Json.parse? json.stdout.toList = some (.object [("error", .object [
            ("diagnostic", .object [
              ("message", .text message),
              ("position", .object [("column", .number column), ("line", .number row),
                ("line_text", .text lineText)]),
              ("snippet", .text snippet)]),
            ("kind", .text kind)])]) ∧
          line = String.ofList message ++ " at line " ++ toString row ++ ", column " ++
            toString column ++ " near \"" ++ String.ofList snippet ++ "\""
  either :
    (∃ program : Text,
      plain = { code := 0, stdout := String.ofList program ++ "\n", stderr := log }) ∨
    ∃ line, plain = { code := 1, stdout := "", stderr := log ++ ("Error: " ++ line ++ "\n") }

theorem parse?_writeDocument (document : Json) :
    Json.parse? (writeDocument document).toList = some document := by
  unfold writeDocument
  rw [String.toList_append, String.toList_ofList]
  exact document.parse?_render (List.all_eq_true.mp (by decide))

theorem failureLine_inj {line other : String} :
    failureLine line = failureLine other ↔ line = other := by
  unfold failureLine
  rw [String.append_left_inj, String.append_right_inj]

/-- An outcome after a log. -/
def Outcome.afterLog (outcome : Outcome) (log : String) : Outcome :=
  { outcome with stderr := log ++ outcome.stderr }

theorem sameNews_of_program (log : String) (program : Text) :
    SameNews log ((compileOutcome .plain (.ok program)).afterLog log)
      ((compileOutcome .json (.ok program)).afterLog log) where
  program other := by
    constructor
    · intro same
      have printed : String.ofList program ++ "\n" = String.ofList other ++ "\n" :=
        congrArg Outcome.stdout same
      rw [String.append_left_inj, String.ofList_inj] at printed
      subst printed
      exact ⟨rfl, String.append_empty, parse?_writeDocument (programDocument program)⟩
    · rintro ⟨-, -, read⟩
      have document := (parse?_writeDocument (programDocument program)).symm.trans read
      unfold programDocument at document
      cases document
      simp [compileOutcome, Outcome.afterLog]
  refusal line := by
    simp [compileOutcome, Outcome.afterLog]
  either := .inl ⟨program, by simp [compileOutcome, Outcome.afterLog]⟩

theorem sameNews_of_rejection (log : String) (rejection : Rejection) :
    SameNews log ((compileOutcome .plain (.error rejection)).afterLog log)
      ((compileOutcome .json (.error rejection)).afterLog log) where
  program other := by
    simp [compileOutcome, Outcome.afterLog]
  refusal line := by
    have written := parse?_writeDocument (rejectionDocument rejection)
    unfold rejectionDocument diagnosticDocument positionDocument at written
    constructor
    · intro same
      have printed : log ++ failureLine rejection.diagnostic.render = log ++ failureLine line :=
        congrArg Outcome.stderr same
      rw [String.append_right_inj, failureLine_inj] at printed
      refine ⟨rfl, String.append_empty, _, _, _, _, _, _, written, ?_⟩
      rw [← printed, String.ofList_toList]
      rfl
    · rintro ⟨-, -, message, snippet, lineText, kind, row, column, read, rfl⟩
      have document := written.symm.trans read
      cases document
      rw [String.ofList_toList]
      rfl
  either := .inr ⟨rejection.diagnostic.render, rfl⟩

variable {world : World} {invocation : Invocation} {settings : Settings} {source : Text}

/-- What is logged when a source is compiled, in either format. -/
def compileLog (world : World) (invocation : Invocation) (settings : Settings) (source : Text) :
    String :=
  writeLines ((logFilter world invocation).render
    ((loadSource world.files settings.extension invocation.path).events ++
      (compile { loopTracking := settings.loopTracking } source).events))

theorem runCommandLine_compile {format : OutputFormat} {arguments : List String}
    (asked : readArguments arguments = .ok { invocation with command := .compile format })
    (configured :
      Settings.load world.files world.environment (settingsLayers invocation) = .ok settings)
    (loaded : (loadSource world.files settings.extension invocation.path).result = .ok source) :
    runCommandLine world arguments = Outcome.afterLog
      (compileOutcome format (compile { loopTracking := settings.loopTracking } source).result)
      (compileLog world invocation settings source) := by
  have invoked : invoke world { invocation with command := .compile format } = Logged.mk
      ((loadSource world.files settings.extension invocation.path).events ++
        (compile { loopTracking := settings.loopTracking } source).events)
      (compileOutcome format
        (compile { loopTracking := settings.loopTracking } source).result) := by
    have layers : settingsLayers { invocation with command := .compile format } =
        settingsLayers invocation := rfl
    unfold invoke
    simp only [layers, configured, loaded, process]
  unfold runCommandLine
  rw [asked]
  simp only [invoked]
  rfl

/-- Compiling a source prints the same program or the same refusal in both formats. -/
theorem compile_formats_agree {plainArguments jsonArguments : List String}
    (plainAsked : readArguments plainArguments = .ok { invocation with command := .compile .plain })
    (jsonAsked : readArguments jsonArguments = .ok { invocation with command := .compile .json })
    (configured :
      Settings.load world.files world.environment (settingsLayers invocation) = .ok settings)
    (loaded : (loadSource world.files settings.extension invocation.path).result = .ok source) :
    ∃ log, SameNews log (runCommandLine world plainArguments)
      (runCommandLine world jsonArguments) := by
  refine ⟨compileLog world invocation settings source, ?_⟩
  rw [runCommandLine_compile plainAsked configured loaded,
    runCommandLine_compile jsonAsked configured loaded]
  cases (compile { loopTracking := settings.loopTracking } source).result with
  | ok program => exact sameNews_of_program _ program
  | error rejection => exact sameNews_of_rejection _ rejection

/-- A source with quotes, a backslash and letters beyond ASCII. -/
def quotedSource : Text := "आरम्भ\nदर्शय(\"\\t\");\nसमाप्त\n".toList

def quotedWorld : World :=
  { files := { entries := [(["a.skt"], .file (Text.encode quotedSource) false)] } }

theorem quotedWorld_formats_agree :
    (loadSource quotedWorld.files "skt" "a.skt").result = .ok quotedSource ∧
    ∃ log, SameNews log (runCommandLine quotedWorld ["compile", "-f", "js", "a.skt"])
      (runCommandLine quotedWorld ["compile", "-f", "json", "a.skt"]) := by
  let invocation : Invocation := { command := .compile .plain, path := "a.skt" }
  have plainAsked : readArguments ["compile", "-f", "js", "a.skt"] =
      .ok { invocation with command := .compile .plain } := by decide
  have jsonAsked : readArguments ["compile", "-f", "json", "a.skt"] =
      .ok { invocation with command := .compile .json } := by decide
  have configured : Settings.load quotedWorld.files quotedWorld.environment
      (settingsLayers invocation) = .ok (.ofValues Settings.Field.default .blockStack) := by rfl
  have loaded : (loadSource quotedWorld.files "skt" "a.skt").result = .ok quotedSource := by decide
  exact ⟨loaded, compile_formats_agree plainAsked jsonAsked configured loaded⟩

end Lipi.CommandLine
