import CallProfiler.Code.Displacement
import CallProfiler.Code.Fault
import CallProfiler.Instruction.Prologue

/-!
# Moving instructions

The leading instructions of a function can be copied to another place if their meaning does not
depend on their address, or if they are branches whose displacement can be set anew.  Branches that
stay inside the moved range are copied as they are.
-/

namespace CallProfiler.Code

/-- The addresses that a run of instructions takes. -/
def movedRange : List Instruction → Memory.Range
  | [] => ⟨0, 0⟩
  | i :: rest => ⟨i.address, ((i :: rest).getLast (by simp)).finish⟩

/-- The bytes of one instruction, `bytes` at its own place, for the place with address `address`. -/
def moveInstruction (range : Memory.Range) (i : Instruction) (bytes : List UInt8) (address : Nat) :
    Except Fault (List UInt8) :=
  if i.isBreakpoint then .error (.immovable i.address .breakpoint)
  else
    match i.relocation with
    | .free => .ok bytes
    | .pointerRelative => .error (.immovable i.address .pointerRelative)
    | .shortBranch target =>
      if range.contains target then .ok bytes else .error (.immovable i.address .leavingShortJump)
    | .nearBranch target =>
      if range.contains target then .ok bytes
      else
        (displacement (address + i.length) target).map (bytes.take (bytes.length - 4) ++ ·)

/-- The instructions of a run whose remaining bytes are `source`, for the place from `address` on. -/
def moveRun (range : Memory.Range) (address : Nat) :
    List Instruction → List UInt8 → Except Fault (List UInt8)
  | [], _ => .ok []
  | i :: rest, source => do
    let moved ← moveInstruction range i (source.take i.length) address
    let more ← moveRun range (address + i.length) rest (source.drop i.length)
    .ok (moved ++ more)

/-- The instructions at the start of `source` so that they run at `destination`; the first that
cannot be moved is a fault. -/
def moveInstructions (source : List UInt8) (prologue : List Instruction) (destination : Nat) :
    Except Fault (List UInt8) :=
  moveRun (movedRange prologue) destination prologue source

end CallProfiler.Code
