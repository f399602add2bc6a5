import CallProfiler.Instruction.Form

/-!
# Floating-point opcodes

The eight opcodes `D8`–`DF`.  Each takes an operand byte; with a register operand the whole byte
selects the operation, and some bytes select none.
-/

namespace CallProfiler.Instruction.Opcode

/-- The memory operand with this `reg` field is an operation of the opcode. -/
def floatingMemory (opcode reg : Nat) : Bool :=
  match opcode with
  | 0xD9 => reg ≠ 1
  | 0xDB => reg ≠ 4 && reg ≠ 6
  | 0xDD => reg ≠ 5
  | _ => true

/-- The register form with this operand byte is an operation of the opcode. -/
def floatingRegister (opcode value : Nat) : Bool :=
  match opcode with
  | 0xD9 =>
    !(0xD1 ≤ value && value ≤ 0xD7) &&
      !(value = 0xE2 || value = 0xE3 || value = 0xE6 || value = 0xE7 || value = 0xEF)
  | 0xDA => value < 0xE0 || value = 0xE9
  | 0xDB => value < 0xE5 || (0xE8 ≤ value && value < 0xF8)
  | 0xDD => value < 0xF0
  | 0xDE => value < 0xD8 || value = 0xD9 || 0xE0 ≤ value
  | 0xDF => value ≤ 0xE0 || (0xE8 ≤ value && value < 0xF8)
  | _ => true

/-- The floating-point opcodes. -/
def floating (opcode : Nat) : Entry :=
  .withOperand fun m =>
    if m.isMemory then if floatingMemory opcode m.reg then some {} else none
    else if floatingRegister opcode m.value then some {} else none

end CallProfiler.Instruction.Opcode
