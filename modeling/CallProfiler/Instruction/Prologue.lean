import CallProfiler.Instruction.Decoder

/-!
# Runs of instructions

`Instruction.Decoder.prologue` reads the instructions at the start of a function until they cover a
given number of bytes; `Instruction.Decoder.paddingLength?` recognises a start that does nothing and is
long enough to be overwritten by a short jump.
-/

namespace CallProfiler.Instruction

namespace Decoder

/-- The instructions at the start of `bytes` until `need` bytes are covered. -/
def prologue (d : Decoder) (bytes : List UInt8) (address need : Nat) : Option (List Instruction) :=
  if need = 0 then some []
  else
    match _read : d.first bytes address with
    | none => none
    | some i => (d.prologue (bytes.drop i.length) (address + i.length) (need - i.length)).map (i :: ·)
termination_by need
decreasing_by
  have := (of_first _read).2.1
  omega

/-- The length of a start of `bytes` that does nothing and leaves room for a short jump. -/
def paddingLength? (d : Decoder) (bytes : List UInt8) (mode : Mode) : Option Nat :=
  match bytes with
  | 0x90 :: 0x90 :: _ => some 2
  | _ =>
    if mode = .bits32 ∧ bytes.take 2 = [0x8B, 0xFF] then some 2
    else ((d.first bytes 0).filter (fun i => i.isNop ∧ 2 ≤ i.length)).map (·.length)

end Decoder

/-- The instructions at the start of `bytes`, read in a mode. -/
def decodePrologue (bytes : List UInt8) (address : Nat) (mode : Mode) (need : Nat) :
    Option (List Instruction) :=
  (Decoder.ofMode mode).prologue bytes address need

/-- The length of a start of `bytes` that does nothing, read in a mode. -/
def paddingLength? (bytes : List UInt8) (mode : Mode) : Option Nat :=
  (Decoder.ofMode mode).paddingLength? bytes mode

end CallProfiler.Instruction
