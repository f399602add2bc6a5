import CallProfiler.Instruction.Basic

/-!
# Bytes in front of the opcode

Input: the bytes of an instruction.  `Prefixes.scan` takes the legacy and register-extension bytes
off the front and says what they change.  An extension byte counts only directly in front of the
opcode: any legacy byte behind it cancels it, and of several the last one counts.
-/

namespace CallProfiler.Instruction

/-- The prefix that selects one of several instructions sharing an opcode. -/
inductive Selector where
  | plain
  | operandSize
  | repeatEqual
  | repeatNotEqual
  deriving DecidableEq

/-- What the bytes in front of an opcode say. -/
structure Prefixes where
  count : Nat
  operandSize : Bool
  addressSize : Bool
  lock : Bool
  selector : Selector
  /-- The low four bits of the register-extension byte in force. -/
  extension : Option Nat
  deriving DecidableEq

namespace Prefixes

/-- No prefix at all. -/
def empty : Prefixes := ⟨0, false, false, false, .plain, none⟩

/-- The widest operands are asked for. -/
def wide (p : Prefixes) : Bool := p.extension.any (· ≥ 8)

/-- Bit 2 of the extension: it extends the `reg` field. -/
def extendsReg (p : Prefixes) : Bool := p.extension.any (fun x => x / 4 % 2 = 1)

/-- Bit 0 of the extension: it extends the `rm` field. -/
def extendsBase (p : Prefixes) : Bool := p.extension.any (fun x => x % 2 = 1)

/-- What one more prefix byte changes, or `none` if the byte is no prefix. -/
def extend (mode : Mode) (p : Prefixes) (byte : UInt8) : Option Prefixes :=
  let p := { p with count := p.count + 1 }
  let legacy := { p with extension := none }
  match byte.toNat with
  | 0x26 | 0x2E | 0x36 | 0x3E | 0x64 | 0x65 => some legacy
  | 0x66 =>
    some { legacy with
      operandSize := true
      selector := if p.selector = .plain then .operandSize else p.selector }
  | 0x67 => some { legacy with addressSize := true }
  | 0xF0 => some { legacy with lock := true }
  | 0xF2 => some { legacy with selector := .repeatNotEqual }
  | 0xF3 => some { legacy with selector := .repeatEqual }
  | n =>
    if mode = .bits64 ∧ n / 16 = 4 then some { p with extension := some (n % 16) } else none

/-- Takes all prefixes off the front, starting from those read before. -/
def scanFrom (mode : Mode) (p : Prefixes) : List UInt8 → Prefixes × List UInt8
  | [] => (p, [])
  | byte :: rest =>
    match p.extend mode byte with
    | some q => scanFrom mode q rest
    | none => (p, byte :: rest)

/-- The prefixes of an instruction, and the bytes from its opcode on. -/
def scan (mode : Mode) (bytes : List UInt8) : Prefixes × List UInt8 :=
  scanFrom mode empty bytes

end Prefixes

end CallProfiler.Instruction
