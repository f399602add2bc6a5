import CallProfiler.Memory.Range
import CallProfiler.SystemFault
import CallProfiler.Text.Hex
import CallProfiler.Text.Quoted

/-!
# Faults of the memory services
-/

namespace CallProfiler.Memory

/-- Why a memory service refuses a request. -/
inductive Fault where
  | mapFailed (size : Nat) (cause : SystemFault)
  | protectFailed (range : Range) (cause : SystemFault)
  | outOfReach (reference : Range)
  | tooLarge (requested blockSize : Nat)
  | system (cause : SystemFault)
  deriving DecidableEq

def Fault.message : Fault → String
  | .mapFailed size cause => s!"Failed to map {size} bytes of executable memory: {cause.message}"
  | .protectFailed range cause =>
    s!"Failed to change protection of {Text.hex range.start}..{Text.hex range.finish}: {cause.message}"
  | .outOfReach range => s!"No free gap within reach of {Text.hex range.start}..{Text.hex range.finish}"
  | .tooLarge requested blockSize =>
    s!"Allocation of {requested} bytes exceeds block size {blockSize}"
  | .system cause => cause.message

/-- The name of the kind of fault. -/
def Fault.kind : Fault → String
  | .mapFailed .. => "MapFailed"
  | .protectFailed .. => "ProtectFailed"
  | .outOfReach _ => "OutOfReach"
  | .tooLarge .. => "TooLarge"
  | .system _ => "Io"

/-- What a fault comes from, as a separate message. -/
def Fault.sources : Fault → List String
  | .mapFailed _ cause => [cause.message]
  | .protectFailed _ cause => [cause.message]
  | _ => []

/-- A fault as a value. -/
def Fault.shown (f : Fault) : Text.Shown :=
  let number (n : Nat) := Text.Shown.word (toString n)
  match f with
  | .mapFailed size cause => .record f.kind [("size", number size), ("source", cause.shown)] true
  | .protectFailed range cause => .record f.kind
      [("start", number range.start), ("end", number range.finish), ("source", cause.shown)] true
  | .outOfReach range =>
    .record f.kind [("start", number range.start), ("end", number range.finish)] true
  | .tooLarge requested blockSize =>
    .record f.kind [("requested", number requested), ("block_size", number blockSize)] true
  | .system cause => .call f.kind [cause.shown]

end CallProfiler.Memory
