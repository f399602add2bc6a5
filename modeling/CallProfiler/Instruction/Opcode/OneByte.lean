import CallProfiler.Instruction.Form

/-!
# One-byte opcodes

The map of opcodes that are not escaped, in blocks of the opcode space.  Floating-point opcodes have
a module of their own.
-/

namespace CallProfiler.Instruction.Opcode

/-- `00`–`3F`: eight arithmetic operations in six shapes each, then segment registers and decimal
adjustment. -/
def arithmetic (mode : Mode) (opcode : Nat) : Entry :=
  match opcode % 8 with
  | 0 | 1 => .withOperand fun _ => some { lockable := opcode / 8 ≠ 7 }
  | 2 | 3 => .general
  | 4 => .simple .byte
  | 5 => .simple .operand
  | _ => Entry.narrow mode .simple

/-- The arithmetic group with an immediate: all but the comparison may be locked. -/
def immediateArithmetic (immediate : Immediate) : Entry :=
  .withOperand fun m => some { immediate, lockable := m.reg ≠ 7 }

/-- `60`–`6F`: stack frames, bounds, sign extension, immediates, ports. -/
def stackAndPort (mode : Mode) (opcode : Nat) : Entry :=
  match opcode with
  | 0x60 | 0x61 => Entry.narrow mode .simple
  | 0x62 => Entry.narrow mode (.taking .memory)
  | 0x63 => .general
  | 0x68 => .simple .operand
  | 0x69 => .general .operand
  | 0x6A => .simple .byte
  | 0x6B => .general .byte
  | 0x6C | 0x6D | 0x6E | 0x6F => .simple
  | _ => .invalid

/-- `80`–`8F`: immediate arithmetic, tests, exchanges and moves. -/
def move (mode : Mode) (opcode : Nat) : Entry :=
  match opcode with
  | 0x80 | 0x83 => immediateArithmetic .byte
  | 0x81 => immediateArithmetic .operand
  | 0x82 => Entry.narrow mode (immediateArithmetic .byte)
  | 0x86 | 0x87 => .withOperand fun _ => some { lockable := true }
  | 0x8C => .withOperand fun m => if m.reg < 6 then some {} else none
  | 0x8D => .taking .memory
  | 0x8E => .withOperand fun m => if m.reg < 6 ∧ m.reg ≠ 1 then some {} else none
  | 0x8F => .withOperand fun m => if m.reg = 0 then some {} else none
  | _ => .general

/-- `90`–`9F`: exchanges with the accumulator, of which the first is the no-operation, then
conversions, far calls and flags. -/
def exchange (mode : Mode) (p : Prefixes) (opcode : Nat) : Entry :=
  match opcode with
  | 0x90 =>
    if p.selector = .repeatEqual ∨ p.extendsBase then .simple
    else .plain { operation := .nop }
  | 0x9A => Entry.narrow mode (.plain { immediate := .farPointer, flow := .call })
  | _ => .simple

/-- `A0`–`AF`: moves at an absolute offset, string operations, tests. -/
def string (opcode : Nat) : Entry :=
  match opcode with
  | 0xA0 | 0xA1 | 0xA2 | 0xA3 => .simple .offset
  | 0xA8 => .simple .byte
  | 0xA9 => .simple .operand
  | _ => .simple

/-- `C0`–`CF`: shifts by an immediate, returns, far loads, immediate moves, interrupts. -/
def returnAndInterrupt (mode : Mode) (opcode : Nat) : Entry :=
  match opcode with
  | 0xC0 | 0xC1 => .general .byte
  | 0xC2 | 0xCA => .plain { immediate := .word, flow := .ret }
  | 0xC3 | 0xCB | 0xCF => .plain { flow := .ret }
  | 0xC4 | 0xC5 => Entry.narrow mode (.taking .memory)
  | 0xC6 => .withOperand fun m =>
    if m.reg = 0 then some { immediate := .byte }
    else if m.value = 0xF8 then some { immediate := .byte, flow := .transaction }
    else none
  | 0xC7 => .withOperand fun m =>
    if m.reg = 0 then some { immediate := .operand }
    else if m.value = 0xF8 then some { immediate := .transactionTarget, flow := .transaction }
    else none
  | 0xC8 => .simple .wordAndByte
  | 0xC9 => .simple
  | 0xCC => .plain { flow := .interrupt, operation := .breakpoint }
  | 0xCD => .plain { immediate := .byte, flow := .interrupt }
  | _ => Entry.narrow mode (.plain { flow := .interrupt })

/-- `D0`–`D7`: shifts by one or by a register, decimal adjustment, table look-up. -/
def shift (mode : Mode) (opcode : Nat) : Entry :=
  match opcode with
  | 0xD0 | 0xD1 | 0xD2 | 0xD3 => .general
  | 0xD4 | 0xD5 => Entry.narrow mode (.simple .byte)
  | 0xD6 => Entry.narrow mode .simple
  | _ => .simple

/-- `E0`–`EF`: loops, ports, calls and jumps. -/
def branch (mode : Mode) (opcode : Nat) : Entry :=
  match opcode with
  | 0xE0 | 0xE1 | 0xE2 | 0xE3 => .plain { immediate := .shortTarget, flow := .conditionalJump }
  | 0xE4 | 0xE5 | 0xE6 | 0xE7 => .simple .byte
  | 0xE8 => .plain { immediate := .nearTarget, flow := .call }
  | 0xE9 => .plain { immediate := .nearTarget, flow := .jump }
  | 0xEA => Entry.narrow mode (.plain { immediate := .farPointer, flow := .jump })
  | 0xEB => .plain { immediate := .shortTarget, flow := .jump }
  | _ => .simple

/-- The group of tests, complements, products and quotients: complements may be locked. -/
def unary (immediate : Immediate) : Entry :=
  .withOperand fun m => some
    { immediate := if m.reg < 2 then immediate else .absent
      lockable := m.reg = 2 ∨ m.reg = 3 }

/-- Increments, indirect calls and jumps, and the push of an operand. -/
def indirect : Entry :=
  .withOperand fun m =>
    match m.reg with
    | 0 | 1 => some { lockable := true }
    | 2 => some { flow := .indirectCall }
    | 3 => if m.isMemory then some { flow := .indirectCall } else none
    | 4 => some { flow := .indirectJump }
    | 5 => if m.isMemory then some { flow := .indirectJump } else none
    | 6 => some {}
    | _ => none

/-- `F0`–`FF`: flags and the unary groups. -/
def flagAndUnary (opcode : Nat) : Entry :=
  match opcode with
  | 0xF1 => .plain { flow := .interrupt }
  | 0xF6 => unary .byte
  | 0xF7 => unary .operand
  | 0xFE => .withOperand fun m => if m.reg < 2 then some { lockable := true } else none
  | 0xFF => indirect
  | _ => .simple

end CallProfiler.Instruction.Opcode
