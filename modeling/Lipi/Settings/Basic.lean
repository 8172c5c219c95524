import Lipi.Program.Loop
import Lipi.Settings.Tree

/-!
# Settings

What can be set: the extension of source files, how loops are tracked, the program that runs
compiled programs, and the text by which its syntax errors are known.
-/

namespace Lipi

/-- The settings in effect. -/
structure Settings where
  extension : String
  loopTracking : LoopTracking
  runtime : String
  invalidSyntaxMarker : String
  deriving DecidableEq, Repr

/-- Why settings could not be loaded. -/
inductive SettingsError where
  | badKey (key : String)
  | missingFile (path : String)
  | badFile (path : String)
  | unknownTracking (name : String)
  | badValue (key : String)
  deriving DecidableEq, Repr

def SettingsError.message : SettingsError → String
  | badKey key => "invalid key \"" ++ key ++ "\""
  | missingFile path => "configuration file \"" ++ path ++ "\" not found"
  | badFile path => "invalid TOML in configuration file \"" ++ path ++ "\""
  | unknownTracking name => "enum LoopTracking does not have variant constructor " ++ name
  | badValue key => "invalid value for key \"" ++ key ++ "\""

namespace Settings

/-- The settings that hold unless others are given. -/
def defaults : Setting :=
  .table [
    ("source", .table [("extension", .text "skt")]),
    ("compile", .table [("loop_tracking", .text "block-stack")]),
    ("runtime", .table [("node", .text "node"), ("invalid_syntax_marker", .text "Unexpected")])]

/-- A field of a section. In a table it goes by its name and in a list by its place. -/
def field? (root : Setting) (group name : String) (place : Nat) :
    Except SettingsError (Option Setting) :=
  match root.get? group with
  | some (.table entries) => .ok (entries.lookup name)
  | some (.list items) => .ok items[place]?
  | _ => .error (.badValue group)

/-- A field that holds text. Numbers and truth values are taken for their text. -/
def textField (root : Setting) (group name : String) (place : Nat) : Except SettingsError String := do
  match (← field? root group name place).bind Setting.text? with
  | some text => return text
  | none => throw (.badValue (group ++ "." ++ name))

/-- The tracking with a name, in any letter case. -/
def trackingNamed (name : String) : Except SettingsError LoopTracking :=
  match LoopTracking.all.find? (foldCase ·.name = foldCase name) with
  | some tracking => .ok tracking
  | none => .error (.unknownTracking name)

/-- How loops are tracked: given by a name, or by the only key of a table. -/
def trackingField (root : Setting) : Except SettingsError LoopTracking := do
  match ← field? root "compile" "loop_tracking" 0 with
  | none => return .blockStack
  | some (.text name) | some (.table [(name, _)]) => trackingNamed name
  | some _ => throw (.badValue "compile.loop_tracking")

/-- The settings that a tree holds. -/
def ofTree (root : Setting) : Except SettingsError Settings := do
  let extension ← textField root "source" "extension" 0
  let loopTracking ← trackingField root
  let runtime ← textField root "runtime" "node" 0
  let invalidSyntaxMarker ← textField root "runtime" "invalid_syntax_marker" 1
  return { extension, loopTracking, runtime, invalidSyntaxMarker }

end Settings

end Lipi
