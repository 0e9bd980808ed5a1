import DocStore.Assoc
import DocStore.Bytes
import DocStore.Path

/-!
A folder of files, and the files that are put into the folders above it. Files are found by
paths that start in the folder.
-/

namespace DocStore

/-- Files by where they are. -/
structure Folder where
  files : Assoc Location Bytes

namespace Folder

def empty : Folder := ⟨∅⟩

def isFile (f : Folder) (location : Location) : Bool := (f.files.get? location).isSome

/-- The place that a path leads to. -/
def locate (f : Folder) (path : String) : Except String Location :=
  (Path.locate f.isFile path).mapError PathProblem.message

def read (f : Folder) (path : String) : Except String Bytes := do
  match f.files.get? (← f.locate path) with
  | some content => return content
  | none => throw PathProblem.missing.message

/-- Writes a file, in the place of an older one. -/
def write (f : Folder) (path : String) (content : Bytes) : Except String Folder := do
  return ⟨f.files.put (← f.locate path) content⟩

end Folder

end DocStore
