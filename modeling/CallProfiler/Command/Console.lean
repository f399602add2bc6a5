import CallProfiler.Folder
import CallProfiler.Profile.Trace
import CallProfiler.Recording.Calibration

/-!
# What commands work with

A command reads and writes files, prints, and measures calls; how this is done is left open.  A desk
is a place where it is done in memory: with a folder, a sheet for what is printed, and a clock that
goes on by a tick whenever it is read.
-/

namespace CallProfiler.Command

open Profile (Trace)

/-- Why a file was not written. -/
inductive WriteFault where
  | notCreated (fault : SystemFault)
  | notWritten (fault : SystemFault)
  deriving DecidableEq

def WriteFault.fault : WriteFault → SystemFault
  | notCreated fault => fault
  | notWritten fault => fault

/-- What a command works with. -/
structure Console (m : Type → Type) where
  readFile : String → m (Except SystemFault ByteArray)
  writeFile : String → List Char → m (Except WriteFault Unit)
  print : String → m Unit
  /-- Measures a number of calls of a function that does nothing. -/
  probes : Nat → m (List Recording.Probe)
  ticksPerSecond : m Nat

namespace Console

variable {m : Type → Type} [Monad m]

/-- Reads a trace from a file. -/
def loadTrace (c : Console m) (path : String) : m (Except Trace.Fault Trace) := do
  match ← c.readFile path with
  | .error fault => return .error (.system fault)
  | .ok bytes => return Trace.ofBytes bytes

/-- Writes a trace to a file. -/
def saveTrace (c : Console m) (path : String) (t : Trace) : m (Except Trace.Fault Unit) := do
  return (← c.writeFile path t.print).mapError fun f => .system f.fault

end Console

/-- A place to work in memory. -/
structure Desk where
  folder : Folder
  printed : String
  deriving DecidableEq

namespace Desk

/-- A desk with files on it. -/
def ofFiles (files : List (String × ByteArray)) : Desk := ⟨⟨files⟩, ""⟩

/-- Four readings of a clock that goes on by a tick. -/
def probe : Recording.Probe := ⟨0, 1, 2, 3⟩

/-- Works at a desk. -/
def console : Console (StateM Desk) where
  readFile path := return (← get).folder.read path
  writeFile path text := do
    match (← get).folder.write path (String.ofList text).toUTF8 with
    | .error fault => return .error (.notCreated fault)
    | .ok folder =>
      modify fun d => { d with folder }
      return .ok ()
  print text := modify fun d => { d with printed := d.printed ++ text }
  probes count := return List.replicate count probe
  ticksPerSecond := return 1

end Desk

end CallProfiler.Command
