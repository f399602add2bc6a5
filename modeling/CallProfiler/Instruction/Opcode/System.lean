import CallProfiler.Instruction.Form

/-!
# System opcodes

The groups of privileged and processor-state instructions in the `0F` map: descriptor tables,
virtual machines, saved state, control registers, and the group of double-width exchanges.
-/

namespace CallProfiler.Instruction.Opcode

/-- An instruction that exists with this selecting prefix only. -/
def only (wanted actual : Selector) (form : Form := {}) : Option Form :=
  if actual = wanted then some form else none

/-- `0F 00`: descriptor-table and task registers. -/
def descriptor (mode : Mode) (s : Selector) : Entry :=
  .withOperand fun m =>
    if m.reg < 6 then some {}
    else if m.reg = 6 ∧ mode = .bits64 then only .repeatNotEqual s
    else none

/-- `0F 01` with a register operand: the whole operand byte selects the operation. -/
def systemRegister (mode : Mode) (s : Selector) (value : Nat) : Option Form :=
  let long := mode = .bits64
  match value with
  | 0xC0 | 0xC4 | 0xC5 => only .plain s
  | 0xC1 | 0xC2 | 0xC3 => only .plain s { flow := .call }
  | 0xC6 => if s = .plain ∨ (long ∧ s ≠ .operandSize) then some {} else none
  | 0xC7 => if long then only .plain s else none
  | 0xC8 | 0xC9 | 0xCB | 0xCF =>
    if s = .operandSize ∧ value = 0xCF ∧ long then some { flow := .call } else only .plain s
  | 0xCA =>
    if long ∧ (s = .repeatEqual ∨ s = .repeatNotEqual) then some { flow := .ret }
    else only .plain s
  | 0xCC => only .operandSize s { flow := .call }
  | 0xCD => if long then only .operandSize s { flow := .call } else none
  | 0xCE => if long then only .operandSize s else none
  | 0xD0 | 0xD1 | 0xD4 | 0xD6 | 0xD7 => only .plain s
  | 0xD5 => only .plain s { flow := .transaction }
  | 0xD8 => some { flow := .call }
  | 0xD9 => if s = .operandSize then none else some { flow := .call }
  | 0xDA | 0xDB | 0xDC | 0xDD | 0xDF => some {}
  | 0xDE => some { flow := .ret }
  | 0xE8 => if s = .operandSize then none else some {}
  | 0xE9 => only .repeatNotEqual s
  | 0xEA => only .repeatEqual s
  | 0xEC => if long then only .repeatEqual s { flow := .ret } else none
  | 0xED => if long then only .repeatEqual s else none
  | 0xEE | 0xEF => if s = .plain ∨ (long ∧ s = .repeatEqual) then some {} else none
  | 0xF8 => if long then some {} else none
  | 0xF9 | 0xFB | 0xFC => some {}
  | 0xFA => if s = .plain ∨ s = .repeatEqual then some {} else none
  | 0xFD => only .plain s
  | 0xFE | 0xFF =>
    if s = .plain ∨ s = .repeatNotEqual ∨ (long ∧ s = .repeatEqual) then some {} else none
  | _ => none

/-- `0F 01`: descriptor tables in memory, machine status, and the operations above. -/
def system (mode : Mode) (s : Selector) : Entry :=
  .withOperand fun m =>
    if m.isMemory then if m.reg = 5 then only .repeatEqual s else some {}
    else if m.reg = 4 ∨ m.reg = 6 then some {}
    else systemRegister mode s m.value

/-- `0F AE`: saving and restoring processor state, fences, segment bases. -/
def state (mode : Mode) (s : Selector) : Entry :=
  .withOperand fun m =>
    if m.isMemory then
      match s with
      | .plain => some {}
      | .operandSize => if 6 ≤ m.reg then some {} else none
      | .repeatEqual => if m.reg = 4 ∨ m.reg = 6 then some {} else none
      | .repeatNotEqual => none
    else
      match s with
      | .plain => if 5 ≤ m.reg then some {} else none
      | .operandSize => if m.reg = 6 then some {} else none
      | .repeatEqual =>
        if m.reg < 4 then if mode = .bits64 then some {} else none
        else if m.reg < 7 then some {}
        else none
      | .repeatNotEqual => if m.reg = 6 then some {} else none

/-- `0F C7`: compare and exchange of two words, saved state, random numbers. -/
def pairExchange (mode : Mode) (s : Selector) : Entry :=
  .withOperand fun m =>
    if m.isMemory then
      match m.reg with
      | 1 => some { lockable := true }
      | 3 | 4 | 5 | 7 => only .plain s
      | 6 => if s = .repeatNotEqual then none else some {}
      | _ => none
    else
      match m.reg, s with
      | 6, .plain | 6, .operandSize | 7, .plain | 7, .operandSize | 7, .repeatEqual => some {}
      | 6, .repeatEqual => if mode = .bits64 then some {} else none
      | _, _ => none

/-- `0F 20` and `0F 22`: control registers 0, 2, 3, 4 and 8 exist. -/
def controlRegister (p : Prefixes) : Entry :=
  .withOperand fun m =>
    let register := m.reg + (if p.extendsReg then 8 else 0)
    if register = 1 ∨ (register ≠ 8 ∧ 5 ≤ register) then none
    else some { registersOnly := true }

/-- `0F 21` and `0F 23`: eight debug registers exist. -/
def debugRegister (p : Prefixes) : Entry :=
  .withOperand fun _ => if p.extendsReg then none else some { registersOnly := true }

/-- `0F A6` and `0F A7`: hashes and ciphers selected by the whole operand byte. -/
def cipher (opcode : Nat) (s : Selector) : Entry :=
  .withOperand fun m =>
    match opcode, m.value with
    | 0xA6, 0xC0 | 0xA6, 0xC8 | 0xA6, 0xD0 | 0xA6, 0xD8 | 0xA6, 0xE0 | 0xA6, 0xE8
    | 0xA6, 0xF0 | 0xA6, 0xF8
    | 0xA7, 0xC8 | 0xA7, 0xD0 | 0xA7, 0xD8 | 0xA7, 0xE0 | 0xA7, 0xE8 | 0xA7, 0xF0
    | 0xA7, 0xF8 => only .repeatEqual s
    | 0xA7, 0xC0 => some {}
    | _, _ => none

end CallProfiler.Instruction.Opcode
