import Lipi.Machine.Shell.Run

/-!
# Starting programs

A program is found by its path if its name has a slash, and among the system's own programs
otherwise. Programs in the working directory are shell scripts.
-/

namespace Lipi

/-- The program that ends at once with a status. -/
def endingWith (code : Nat) : Executable := fun _ input =>
  { tookInput := input.length ≤ pipeCapacity, stdout := [], stderr := [], status := .code code }

/-- The system's own programs. -/
def systemPrograms : List (String × Executable) :=
  [("true", endingWith 0), ("false", endingWith 1)]

/-- The directories that hold the system's own programs. -/
def systemDirectories : List String := ["/bin/", "/usr/bin/"]

/-- The line with which a shell script begins. -/
def shellMark : Text := "#!/bin/sh\n".toList

/-- The program in an executable file. -/
def executable (files : FileTree) (path : String) (content : Bytes) :
    Except SystemError Executable :=
  let script := Text.decodeLossy content
  if (Text.after? shellMark script).isSome then
    .ok fun arguments input => Shell.runScript { files, script := path, arguments } script input
  else .error .badExecutable

/-- Looks up the program that a name stands for. -/
def launch (files : FileTree) (name : String) : Except SystemError Executable := do
  if name.toList.contains '\x00' then throw .nulInName
  if name.toList.contains '/' then
    match systemPrograms.find? fun (program, _) =>
      systemDirectories.any fun directory => directory ++ program = name with
    | some (_, executable) => return executable
    | none =>
      match ← files.resolve name with
      | .file content true => executable files name content
      | _ => throw .permissionDenied
  else if name = "." ∨ name = ".." then throw .permissionDenied
  else match systemPrograms.lookup name with
    | some executable => return executable
    | none => throw .notFound

end Lipi
