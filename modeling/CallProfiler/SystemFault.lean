import CallProfiler.Text.Quoted

/-!
# Faults that the operating system reports

A fault is known by its number; the table gives its wording and, for the common ones, its kind.
-/

namespace CallProfiler

/-- A fault that the operating system reports. -/
structure SystemFault where
  number : Nat
  deriving DecidableEq

namespace SystemFault

def notPermitted : SystemFault := ⟨1⟩

def notFound : SystemFault := ⟨2⟩

def outOfMemory : SystemFault := ⟨12⟩

def alreadyExists : SystemFault := ⟨17⟩

def notDirectory : SystemFault := ⟨20⟩

def isDirectory : SystemFault := ⟨21⟩

def invalidArgument : SystemFault := ⟨22⟩

/-- The wording of a fault. -/
def wording (f : SystemFault) : String :=
  match f.number with
  | 0 => "Success"
  | 1 => "Operation not permitted"
  | 2 => "No such file or directory"
  | 3 => "No such process"
  | 4 => "Interrupted system call"
  | 5 => "Input/output error"
  | 6 => "No such device or address"
  | 7 => "Argument list too long"
  | 8 => "Exec format error"
  | 9 => "Bad file descriptor"
  | 10 => "No child processes"
  | 11 => "Resource temporarily unavailable"
  | 12 => "Cannot allocate memory"
  | 13 => "Permission denied"
  | 14 => "Bad address"
  | 15 => "Block device required"
  | 16 => "Device or resource busy"
  | 17 => "File exists"
  | 18 => "Invalid cross-device link"
  | 19 => "No such device"
  | 20 => "Not a directory"
  | 21 => "Is a directory"
  | 22 => "Invalid argument"
  | 23 => "Too many open files in system"
  | 24 => "Too many open files"
  | 25 => "Inappropriate ioctl for device"
  | 26 => "Text file busy"
  | 27 => "File too large"
  | 28 => "No space left on device"
  | 29 => "Illegal seek"
  | 30 => "Read-only file system"
  | 31 => "Too many links"
  | 32 => "Broken pipe"
  | 33 => "Numerical argument out of domain"
  | 34 => "Numerical result out of range"
  | n => s!"Unknown error {n}"

/-- The kind that a common fault belongs to. -/
def kind (f : SystemFault) : String :=
  match f.number with
  | 1 => "PermissionDenied"
  | 2 => "NotFound"
  | 4 => "Interrupted"
  | 11 => "WouldBlock"
  | 12 => "OutOfMemory"
  | 13 => "PermissionDenied"
  | 17 => "AlreadyExists"
  | 20 => "NotADirectory"
  | 21 => "IsADirectory"
  | 22 => "InvalidInput"
  | 28 => "StorageFull"
  | 32 => "BrokenPipe"
  | _ => "Uncategorized"

/-- The wording with the number behind it. -/
def message (f : SystemFault) : String := s!"{f.wording} (os error {f.number})"

/-- A fault as a value. -/
def shown (f : SystemFault) : Text.Shown :=
  .record "Os" [("code", .word (toString f.number)), ("kind", .word f.kind),
    ("message", .quoted f.wording)] true

end SystemFault

end CallProfiler
