import Lipi.Machine.SystemError
import Lipi.Text.Utf8

/-!
# File trees

The files and directories in and below a working directory, and the paths that name them. Of what
lies outside, only the directories on the way up are known.
-/

namespace Lipi

/-! ### Names in paths -/

namespace Path

/-- The names in a path. The empty ones stand for a leading, a trailing or a doubled slash. -/
def names (path : String) : List String :=
  (path.toList.splitOn '/').map String.ofList

/-- The last name in a path, if it is the name of a file: names that stay in a directory are passed
over, and a path to a parent directory has no file name. -/
def fileName? (path : String) : Option String :=
  match ((names path).filter fun name => name ≠ "" ∧ name ≠ ".").getLast? with
  | some name => if name = ".." then none else some name
  | none => none

/-- What follows the last dot of a file name, unless that dot is its first character. -/
def extension? (path : String) : Option String := do
  let reversed := (← fileName? path).toList.reverse
  let stem := (reversed.dropWhile (· ≠ '.')).drop 1
  if stem.isEmpty then none else some (String.ofList (reversed.takeWhile (· ≠ '.')).reverse)

end Path

/-! ### Files -/

/-- What a path can lead to. -/
inductive FileEntry where
  | file (content : Bytes) (executable : Bool)
  | directory
  deriving DecidableEq, Repr

/-- Files and directories, each with the names that lead to it from the working directory. The
directories on the way to an entry need no entries of their own. -/
structure FileTree where
  entries : List (List String × FileEntry) := []

namespace FileTree

/-- The entry at the end of a list of names. -/
def entry? (tree : FileTree) (names : List String) : Option FileEntry :=
  if names.isEmpty then some .directory
  else match tree.entries.lookup names with
    | some entry => some entry
    | none => if tree.entries.any (names.isPrefixOf ·.1) then some .directory else none

/-- Where a path has led so far: to an entry of the tree, or out of the working directory. -/
inductive Place where
  | inside (names : List String)
  | outside

/-- Follows one name of a path. -/
def follow (tree : FileTree) (place : Place) (name : String) : Except SystemError Place :=
  let stays := name = "" ∨ name = "."
  match place with
  | .outside => if stays ∨ name = ".." then .ok .outside else .error .notFound
  | .inside names =>
    match tree.entry? names with
    | some .directory =>
      if stays then .ok place
      else if name = ".." then .ok (if names.isEmpty then .outside else .inside names.dropLast)
      else if (tree.entry? (names ++ [name])).isSome then .ok (.inside (names ++ [name]))
      else .error .notFound
    | _ => .error .notADirectory

/-- The entry that a path leads to. -/
def resolve (tree : FileTree) (path : String) : Except SystemError FileEntry := do
  if path.isEmpty then throw .notFound
  if path.toList.contains '\x00' then throw .nulInName
  let start := if path.toList.head? = some '/' then Place.outside else Place.inside []
  match ← (Path.names path).foldlM tree.follow start with
  | .outside => return .directory
  | .inside names =>
    match tree.entry? names with
    | some entry => return entry
    | none => throw .notFound

/-- The content of the file that a path leads to. -/
def read (tree : FileTree) (path : String) : Except SystemError Bytes := do
  match ← tree.resolve path with
  | .file content _ => return content
  | .directory => throw .isADirectory

/-- Whether a path leads to a file. -/
def isFile (tree : FileTree) (path : String) : Bool :=
  match tree.resolve path with
  | .ok (.file ..) => true
  | _ => false

end FileTree

end Lipi
