import CallProfiler.Instruction.Opcode.System

/-!
# Two-byte opcodes

The map behind the escape byte `0F`, in blocks of sixteen or more.  Vector opcodes say for each
selecting prefix which operands they take.
-/

namespace CallProfiler.Instruction.Opcode

/-- `0F 02`–`0F 0E`: access rights, fast system calls, caches, prefetches. -/
def access (mode : Mode) (s : Selector) (opcode : Nat) : Entry :=
  match opcode with
  | 0x00 => descriptor mode s
  | 0x01 => system mode s
  | 0x02 | 0x03 | 0x0D => .general
  | 0x05 => .plain { flow := .call }
  | 0x07 => .plain { flow := .ret }
  | 0x0B => .plain { flow := .exception }
  | 0x06 | 0x08 | 0x09 | 0x0E => .simple
  | _ => .invalid

/-- `0F 10`–`0F 1F`: vector moves, then hints, of which one is the long no-operation. -/
def moveAndHint (s : Selector) (opcode : Nat) : Entry :=
  match opcode with
  | 0x10 | 0x11 => .selected s .either .either .either .either
  | 0x12 => .selected s .either .memory .either .either
  | 0x13 | 0x17 => .selected s .memory .memory .nothing .nothing
  | 0x14 | 0x15 => .selected s .either .either .nothing .nothing
  | 0x16 => .selected s .either .memory .either .nothing
  | 0x1F => .withOperand fun m => some { operation := if m.reg = 0 then .nop else .other }
  | _ => .general

/-- `0F 20`–`0F 2F`: control registers, aligned moves, conversions, comparisons. -/
def controlAndConvert (p : Prefixes) (opcode : Nat) : Entry :=
  match opcode with
  | 0x20 | 0x22 => controlRegister p
  | 0x21 | 0x23 => debugRegister p
  | 0x28 | 0x29 | 0x2E | 0x2F => .selected p.selector .either .either .nothing .nothing
  | 0x2A | 0x2C | 0x2D => .selected p.selector .either .either .either .either
  | 0x2B => .selected p.selector .memory .memory .memory .memory
  | _ => .invalid

/-- `0F 30`–`0F 3F`: model-specific registers, counters, fast system calls. -/
def counter (s : Selector) (opcode : Nat) : Entry :=
  match opcode with
  | 0x30 | 0x31 | 0x32 | 0x33 => .simple
  | 0x34 => .plain { flow := .call }
  | 0x35 => .plain { flow := .ret }
  | 0x37 => if s = .plain then .simple else .invalid
  | _ => .invalid

/-- `0F 50`–`0F 7F`: vector arithmetic, packing, comparisons and shifts. -/
def vectorArithmetic (s : Selector) (opcode : Nat) : Entry :=
  match opcode with
  | 0x50 => .selected s .register .register .nothing .nothing
  | 0x52 | 0x53 => .selected s .either .nothing .either .nothing
  | 0x54 | 0x55 | 0x56 | 0x57 => .selected s .either .either .nothing .nothing
  | 0x5B => .selected s .either .either .either .nothing
  | 0x6C | 0x6D => .selected s .nothing .either .nothing .nothing
  | 0x6F | 0x7E | 0x7F =>
    .selected s .either .either .either .nothing
  | 0x70 => .selected s .either .either .either .either .byte
  | 0x71 | 0x72 => .withOperand fun m =>
    if !m.isMemory ∧ (m.reg = 2 ∨ m.reg = 4 ∨ m.reg = 6) ∧ (s = .plain ∨ s = .operandSize) then
      some { immediate := .byte }
    else none
  | 0x73 => .withOperand fun m =>
    if !m.isMemory ∧ (((m.reg = 2 ∨ m.reg = 6) ∧ (s = .plain ∨ s = .operandSize)) ∨
        ((m.reg = 3 ∨ m.reg = 7) ∧ s = .operandSize)) then
      some { immediate := .byte }
    else none
  | 0x77 => if s = .plain then .simple else .invalid
  | 0x78 =>
    match s with
    | .plain => .general
    | .operandSize => .withOperand fun m =>
      if !m.isMemory ∧ m.reg = 0 then some { immediate := .twoBytes } else none
    | .repeatEqual => .invalid
    | .repeatNotEqual => .taking .register .twoBytes
  | 0x79 => .selected s .either .register .nothing .register
  | 0x7A | 0x7B => .invalid
  | 0x7C | 0x7D => .selected s .nothing .either .nothing .either
  | n =>
    if n < 0x60 then .selected s .either .either .either .either
    else .selected s .either .either .nothing .nothing

/-- `0F A0`–`0F AF`: segment registers, bit tests, double shifts, saved state. -/
def bitTest (mode : Mode) (s : Selector) (opcode : Nat) : Entry :=
  match opcode with
  | 0xA0 | 0xA1 | 0xA2 | 0xA8 | 0xA9 => .simple
  | 0xA3 | 0xA5 | 0xAD | 0xAF => .general
  | 0xA4 | 0xAC => .general .byte
  | 0xA6 | 0xA7 => cipher opcode s
  | 0xAA => .plain { flow := .ret }
  | 0xAB => .withOperand fun _ => some { lockable := true }
  | _ => state mode s

/-- `0F B0`–`0F BF`: compare and exchange, far loads, extensions, bit scans. -/
def bitScan (s : Selector) (opcode : Nat) : Entry :=
  match opcode with
  | 0xB0 | 0xB1 | 0xB3 | 0xBB => .withOperand fun _ => some { lockable := true }
  | 0xB2 | 0xB4 | 0xB5 => .taking .memory
  | 0xB8 => .selected s .nothing .nothing .either .nothing
  | 0xB9 => .withOperand fun _ => some { flow := .exception }
  | 0xBA => .withOperand fun m =>
    if m.reg < 4 then none else some { immediate := .byte, lockable := m.reg ≠ 4 }
  | _ => .general

/-- `0F C0`–`0F CF`: exchange and add, vector elements, byte swaps. -/
def element (mode : Mode) (s : Selector) (opcode : Nat) : Entry :=
  match opcode with
  | 0xC0 | 0xC1 => .withOperand fun _ => some { lockable := true }
  | 0xC2 => .selected s .either .either .either .either .byte
  | 0xC3 => .selected s .memory .nothing .nothing .nothing
  | 0xC4 | 0xC6 => .selected s .either .either .nothing .nothing .byte
  | 0xC5 => .selected s .register .register .nothing .nothing .byte
  | 0xC7 => pairExchange mode s
  | _ => .simple

/-- `0F D0`–`0F FF`: packed integer arithmetic. -/
def packed (s : Selector) (opcode : Nat) : Entry :=
  match opcode with
  | 0xD0 => .selected s .nothing .either .nothing .either
  | 0xD6 => .selected s .nothing .either .register .register
  | 0xD7 | 0xF7 => .selected s .register .register .nothing .nothing
  | 0xE6 => .selected s .nothing .either .either .either
  | 0xE7 => .selected s .memory .memory .nothing .nothing
  | 0xF0 => .selected s .nothing .nothing .nothing .memory
  | 0xFF => .withOperand fun _ => some { flow := .exception }
  | _ => .selected s .either .either .nothing .nothing

/-- The map behind `0F`. -/
def twoByte (mode : Mode) (p : Prefixes) (opcode : Nat) : Entry :=
  if opcode < 0x10 then access mode p.selector opcode
  else if opcode < 0x20 then moveAndHint p.selector opcode
  else if opcode < 0x30 then controlAndConvert p opcode
  else if opcode < 0x40 then counter p.selector opcode
  else if opcode < 0x50 then .general
  else if opcode < 0x80 then vectorArithmetic p.selector opcode
  else if opcode < 0x90 then .plain { immediate := .nearTarget, flow := .conditionalJump }
  else if opcode < 0xA0 then .general
  else if opcode < 0xB0 then bitTest mode p.selector opcode
  else if opcode < 0xC0 then bitScan p.selector opcode
  else if opcode < 0xD0 then element mode p.selector opcode
  else packed p.selector opcode

end CallProfiler.Instruction.Opcode
