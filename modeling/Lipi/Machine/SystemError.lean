/-!
# System errors

The ways in which files and processes fail, with the system's words for them.
-/

namespace Lipi

/-- A failure of the file system or of a process. -/
inductive SystemError where
  | notFound
  | badExecutable
  | permissionDenied
  | notADirectory
  | isADirectory
  | brokenPipe
  | invalidUtf8
  | nulInName
  deriving DecidableEq, Repr

def SystemError.message : SystemError → String
  | notFound => "No such file or directory (os error 2)"
  | badExecutable => "Exec format error (os error 8)"
  | permissionDenied => "Permission denied (os error 13)"
  | notADirectory => "Not a directory (os error 20)"
  | isADirectory => "Is a directory (os error 21)"
  | brokenPipe => "Broken pipe (os error 32)"
  | invalidUtf8 => "stream did not contain valid UTF-8"
  | nulInName => "nul byte found in provided data"

end Lipi
