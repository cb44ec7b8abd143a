import RecipeClient.Text.Split

/-!
# Files

Directories and files, and what becomes of them when a file is written. A path leads through
directories, from the root if it begins with a slash and from the working directory otherwise; `.`
stays where it is, and `..` goes back, though never above the root. A file is replaced if it is
there already.
-/

namespace RecipeClient

/-- Why a file cannot be written. -/
inductive FileTrouble where
  /-- A directory on the way is missing. -/
  | missing
  /-- A file is on the way. -/
  | notADirectory
  /-- The path leads to a directory. -/
  | aDirectory
  /-- A name, or the path, is too long. -/
  | tooLong
  /-- The path holds the character that ends paths. -/
  | nul
deriving DecidableEq

namespace FileTrouble

/-- The text that the system has for a trouble. -/
def message : FileTrouble → String
  | missing => "No such file or directory (os error 2)"
  | notADirectory => "Not a directory (os error 20)"
  | aDirectory => "Is a directory (os error 21)"
  | tooLong => "File name too long (os error 36)"
  | nul => "file name contained an unexpected NUL byte"

end FileTrouble

/-- A file that could not be saved. -/
structure SaveFailure where
  path : String
  /-- Why not. -/
  trouble : FileTrouble

namespace SaveFailure

/-- The text that reports a file that could not be saved. -/
def message (f : SaveFailure) : String := s!"Failed to create '{f.path}': {f.trouble.message}"

end SaveFailure

/-- Directories and files; a place is given by the names on the way from the root to it. -/
structure Disk where
  /-- The working directory. -/
  here : List String := []
  /-- The directories other than the root. -/
  directories : List (List String) := []
  /-- The files with their texts; the first one at a place counts. -/
  files : List (List String × String) := []
deriving Inhabited

namespace Disk

/-- How many bytes a name may have. -/
def longestName : Nat := 255

/-- How many bytes a path may have. -/
def longestPath : Nat := 4095

/-- The place where names lead to through directories, from a place on. -/
def walk (disk : Disk) : List String → (place : List String) → Except FileTrouble (List String)
  | [], place => .ok place
  | name :: names, place =>
    if name = "." then walk disk names place
    else if name = ".." then walk disk names place.dropLast
    else if longestName < name.utf8ByteSize then .error .tooLong
    else if disk.directories.contains (place ++ [name]) then walk disk names (place ++ [name])
    else if disk.files.any (·.1 == place ++ [name]) then .error .notADirectory
    else .error .missing

/-- The place of the file that a path names. -/
def locate (disk : Disk) (path : String) : Except FileTrouble (List String) := do
  let cs := path.toList
  if cs.contains (Char.ofNat 0) then throw .nul
  if longestPath < path.utf8ByteSize then throw .tooLong
  if cs.isEmpty then throw .missing
  let start := if cs.head? = some '/' then [] else disk.here
  let names := ((Text.split (· == '/') cs).map String.ofList).filter (· ≠ "")
  match names.getLast? with
  | none => throw .aDirectory
  | some name =>
    let place ← disk.walk names.dropLast start
    if cs.getLast? = some '/' ∨ name = "." ∨ name = ".." then throw .aDirectory
    if longestName < name.utf8ByteSize then throw .tooLong
    if disk.directories.contains (place ++ [name]) then throw .aDirectory
    return place ++ [name]

/-- Writes a text to the file that a path names. -/
def write (disk : Disk) (path text : String) : Except SaveFailure Disk :=
  match disk.locate path with
  | .ok place => .ok { disk with files := (place, text) :: disk.files }
  | .error trouble => .error ⟨path, trouble⟩

/-- The text of the file that a path names. -/
def read? (disk : Disk) (path : String) : Option String :=
  match disk.locate path with
  | .ok place => disk.files.lookup place
  | .error _ => none

end Disk

end RecipeClient
