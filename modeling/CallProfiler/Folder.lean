import CallProfiler.SystemFault

/-!
# Folders

A folder holds files by their names and no other folders.  A path is a row of names between slashes;
empty names and points stay where they are, so that a path can name the folder itself.
-/

namespace CallProfiler

/-- A folder with its files in the order in which they were made. -/
structure Folder where
  files : List (String × ByteArray)
  deriving DecidableEq

namespace Folder

def empty : Folder := ⟨[]⟩

def content? (f : Folder) (name : String) : Option ByteArray := f.files.lookup name

/-- What a path leads to. -/
inductive Spot where
  | folder
  /-- A file by its name, which need not be there; it may be asked for as a folder. -/
  | file (name : String) (asFolder : Bool)
  deriving DecidableEq

/-- The names in a path. -/
def steps (path : String) : List String :=
  (path.splitOn "/").filter fun name => name ≠ "" ∧ name ≠ "."

/-- The last name in a path is followed by a slash or stays where it is. -/
def endsAsFolder (path : String) : Bool :=
  match (path.splitOn "/").getLast? with
  | some name => name = "" || name = "."
  | none => false

/-- Where a path leads.  Nothing is known outside of the folder. -/
def spot (f : Folder) (path : String) : Except SystemFault Spot :=
  if path = "" ∨ path.startsWith "/" then .error .notFound
  else
    match steps path with
    | [] => .ok .folder
    | [name] => if name = ".." then .error .notFound else .ok (.file name (endsAsFolder path))
    | name :: _ =>
      .error (if (f.content? name).isSome then .notDirectory else .notFound)

/-- The bytes of the file at a path. -/
def read (f : Folder) (path : String) : Except SystemFault ByteArray :=
  match f.spot path with
  | .error fault => .error fault
  | .ok .folder => .error .isDirectory
  | .ok (.file name asFolder) =>
    match f.content? name with
    | none => .error .notFound
    | some bytes => if asFolder then .error .notDirectory else .ok bytes

/-- Replaces the file of a name or adds one. -/
def put (name : String) (bytes : ByteArray) : List (String × ByteArray) → List (String × ByteArray)
  | [] => [(name, bytes)]
  | (n, b) :: rest => if n = name then (name, bytes) :: rest else (n, b) :: put name bytes rest

/-- Writes the file at a path. -/
def write (f : Folder) (path : String) (bytes : ByteArray) : Except SystemFault Folder :=
  match f.spot path with
  | .error fault => .error fault
  | .ok .folder => .error .isDirectory
  | .ok (.file name asFolder) =>
    if asFolder then
      .error (if (f.content? name).isSome then .notDirectory else .isDirectory)
    else .ok ⟨put name bytes f.files⟩

end Folder

end CallProfiler
