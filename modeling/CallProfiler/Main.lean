import CallProfiler.Command.Help
import CallProfiler.Command.Run

/-!
# The program

Commands work with the files, the output and the clock of the process; the exit code tells how they
ended.
-/

namespace CallProfiler.Main

open Command

/-- The fault with a number, which may be given as its opposite. -/
def numbered (code : UInt32) : SystemFault := ⟨min code.toNat (2 ^ 32 - code.toNat)⟩

/-- The number of a fault; faults that come without one count as failed input or output. -/
def faultOf : IO.Error → SystemFault
  | .alreadyExists _ code _ => numbered code
  | .otherError code _ => numbered code
  | .resourceBusy code _ => numbered code
  | .resourceVanished code _ => numbered code
  | .unsupportedOperation code _ => numbered code
  | .hardwareFault code _ => numbered code
  | .unsatisfiedConstraints code _ => numbered code
  | .illegalOperation code _ => numbered code
  | .protocolError code _ => numbered code
  | .timeExpired code _ => numbered code
  | .interrupted _ code _ => numbered code
  | .noFileOrDirectory _ code _ => numbered code
  | .invalidArgument _ code _ => numbered code
  | .permissionDenied _ code _ => numbered code
  | .resourceExhausted _ code _ => numbered code
  | .inappropriateType _ code _ => numbered code
  | .noSuchThing _ code _ => numbered code
  | .unexpectedEof => ⟨5⟩
  | .userError _ => ⟨5⟩

/-- Does something and tells of its fault. -/
def attempt {α : Type} (action : IO α) : IO (Except SystemFault α) :=
  return (← action.toBaseIO).mapError faultOf

def writeFile (path : String) (text : List Char) : IO (Except WriteFault Unit) := do
  match ← attempt (IO.FS.Handle.mk path .write) with
  | .error fault => return .error (.notCreated fault)
  | .ok file =>
    let written ← attempt do
      file.putStr (String.ofList text)
      file.flush
    return written.mapError .notWritten

/-- A reading of the clock, which counts nanoseconds. -/
def clock : IO UInt64 := return UInt64.ofNat (← IO.monoNanosNow)

/-- Measures a call that does nothing but take the two readings that are recorded. -/
def probe : IO Recording.Probe := do
  let before ← clock
  let entered ← clock
  let left ← clock
  let after ← clock
  return ⟨before, entered, left, after⟩

def console : Console IO where
  readFile path := attempt (IO.FS.readBinFile path)
  writeFile := writeFile
  print := IO.print
  probes count := (List.range count).mapM fun _ => probe
  ticksPerSecond := return 1000000000

end CallProfiler.Main

open CallProfiler Command in
/-- Runs the command line. -/
def main (args : List String) : IO UInt32 := do
  let ending ← run Main.console args
  match ending with
  | .finished => pure ()
  | .failed failure => IO.eprintln s!"error: {failure.message}"
  | .refused .help => IO.println usage
  | .refused refusal => IO.eprintln refusal.message
  return ending.code.toUInt32
