import Lipi.Compilation.Event
import Lipi.Machine.FileTree

/-!
# Source files

A program is loaded from a file with the expected extension, which has to hold UTF-8.
-/

namespace Lipi

/-- Why a source file could not be loaded. -/
inductive LoadError where
  | notFound (path : String)
  | wrongExtension (expected : String)
  | unreadable (path : String) (cause : SystemError)
  deriving DecidableEq, Repr

def LoadError.message : LoadError → String
  | notFound path => "File \"" ++ path ++ "\" not found."
  | wrongExtension expected => "File must have ." ++ expected ++ " extension."
  | unreadable path cause => "could not read \"" ++ path ++ "\": " ++ cause.message

/-- The text of the source file at a path. -/
def readSource (files : FileTree) (extension path : String) : Except LoadError Text :=
  match files.resolve path with
  | .error _ => .error (.notFound path)
  | .ok entry =>
    if Path.extension? path ≠ some extension then .error (.wrongExtension extension)
    else match entry with
      | .directory => .error (.unreadable path .isADirectory)
      | .file content _ =>
        match Text.decode? content with
        | some source => .ok source
        | none => .error (.unreadable path .invalidUtf8)

/-- Loads the source file at a path, and logs its size. -/
def loadSource (files : FileTree) (extension path : String) : Logged (Except LoadError Text) :=
  match readSource files extension path with
  | .ok source => ⟨[.loadedSource path (Text.byteLength source)], .ok source⟩
  | .error error => ⟨[], .error error⟩

end Lipi
