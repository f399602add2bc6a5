import CallProfiler.Instruction.Form

/-!
# Three-byte opcodes

The maps behind `0F 38` and `0F 3A`, which hold vector operations and a few system operations, and
the operations behind `0F 0F` that are selected by a byte after their operands.
-/

namespace CallProfiler.Instruction.Opcode

/-- The map behind `0F 38`. -/
def vectorExtended (mode : Mode) (s : Selector) (opcode : Nat) : Entry :=
  let both : Entry := .selected s .either .either .nothing .nothing
  let sized : Entry := .selected s .nothing .either .nothing .nothing
  let plainOnly : Entry := .selected s .either .nothing .nothing .nothing
  if opcode < 0x0C then both
  else if opcode < 0x80 then
    match opcode with
    | 0x10 | 0x14 | 0x15 | 0x17 => sized
    | 0x1C | 0x1D | 0x1E => both
    | 0x20 | 0x21 | 0x22 | 0x23 | 0x24 | 0x25 | 0x28 | 0x29 | 0x2B => sized
    | 0x2A => .selected s .nothing .memory .nothing .nothing
    | 0x30 | 0x31 | 0x32 | 0x33 | 0x34 | 0x35 => sized
    | n => if 0x37 ≤ n ∧ n ≤ 0x41 then sized else .invalid
  else
    match opcode with
    | 0x80 | 0x81 | 0x82 => .selected s .nothing .memory .nothing .nothing
    | 0xC8 | 0xC9 | 0xCA | 0xCB | 0xCC | 0xCD => plainOnly
    | 0xCF => sized
    | 0xD8 => .withOperand fun m =>
      if s = .repeatEqual ∧ m.isMemory ∧ m.reg < 4 then some {} else none
    | 0xDB => sized
    | 0xDC => .selected s .nothing .either .either .nothing
    | 0xDD | 0xDE | 0xDF => .selected s .nothing .either .memory .nothing
    | 0xF0 | 0xF1 => .selected s .memory .memory .nothing .either
    | 0xF5 => .selected s .nothing .memory .nothing .nothing
    | 0xF6 => .selected s .memory .either .either .nothing
    | 0xF8 =>
      if mode = .bits64 then .selected s .nothing .memory .either .either
      else .selected s .nothing .memory .memory .memory
    | 0xF9 => .selected s .memory .nothing .nothing .nothing
    | 0xFA | 0xFB => .selected s .nothing .nothing .register .nothing
    | 0xFC => .selected s .memory .memory .memory .memory
    | _ => .invalid

/-- The map behind `0F 3A`; every operation there has an immediate byte. -/
def vectorImmediate (s : Selector) (opcode : Nat) : Entry :=
  let sized : Entry := .selected s .nothing .either .nothing .nothing .byte
  match opcode with
  | 0x08 | 0x09 | 0x0A | 0x0B | 0x0C | 0x0D | 0x0E => sized
  | 0x0F => .selected s .either .either .nothing .nothing .byte
  | 0x14 | 0x15 | 0x16 | 0x17 | 0x20 | 0x21 | 0x22 => sized
  | 0x40 | 0x41 | 0x42 | 0x44 | 0x60 | 0x61 | 0x62 | 0x63 => sized
  | 0xCC => .selected s .either .nothing .nothing .nothing .byte
  | 0xCE | 0xCF | 0xDF => sized
  | 0xF0 => .withOperand fun m =>
    if s = .repeatEqual ∧ m.value = 0xC0 then some { immediate := .byte } else none
  | _ => .invalid

/-- The byte behind the operands of `0F 0F` selects an operation. -/
def floatingPair (suffix : Nat) : Bool :=
  suffix ∈ [0x0C, 0x0D, 0x1C, 0x1D, 0x8A, 0x8E, 0x90, 0x94, 0x96, 0x97, 0x9A, 0x9E, 0xA0, 0xA4,
    0xA6, 0xA7, 0xAA, 0xAE, 0xB0, 0xB4, 0xB6, 0xB7, 0xBB, 0xBF]

end CallProfiler.Instruction.Opcode
