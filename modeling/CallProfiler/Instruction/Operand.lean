import CallProfiler.Instruction.Prefixes

/-!
# Operand bytes

Behind the opcode come an operand byte with its displacement and then immediate bytes.  This module
says how many bytes each part takes in each mode, and which address a branch displacement denotes.
-/

namespace CallProfiler.Instruction

/-- Number of bytes of an operand or address of the width in force. -/
inductive Width where
  | two
  | four
  | eight
  deriving DecidableEq

def Width.bytes : Width → Nat
  | .two => 2
  | .four => 4
  | .eight => 8

/-- Operands are four bytes wide, in 16-bit code two; the size prefix swaps the two widths and
the wide extension overrides both. -/
def operandWidth (mode : Mode) (p : Prefixes) : Width :=
  if p.wide then .eight
  else if (mode = .bits16) = p.operandSize then .four else .two

/-- Addresses are as wide as the mode; the size prefix selects the other width of the mode. -/
def addressWidth (mode : Mode) (p : Prefixes) : Width :=
  match mode, p.addressSize with
  | .bits64, false => .eight
  | .bits64, true => .four
  | .bits32, false => .four
  | .bits32, true => .two
  | .bits16, false => .two
  | .bits16, true => .four

/-- The operand byte: addressing form, register or opcode extension, register or base. -/
structure OperandByte where
  form : Nat
  reg : Nat
  base : Nat
  deriving DecidableEq

namespace OperandByte

def ofByte (b : UInt8) : OperandByte := ⟨b.toNat / 64, b.toNat / 8 % 8, b.toNat % 8⟩

/-- The operand lies in memory rather than in a register. -/
def isMemory (m : OperandByte) : Bool := m.form ≠ 3

/-- The value of the byte. -/
def value (m : OperandByte) : Nat := m.form * 64 + m.reg * 8 + m.base

end OperandByte

/-- Bytes of scaled-index byte and displacement behind the operand byte; `next` is the byte that
would be the scaled-index byte. -/
def displacementBytes (width : Width) (m : OperandByte) (next : Option UInt8) : Nat :=
  if m.form = 3 then 0
  else if width = .two then
    match m.form with
    | 0 => if m.base = 6 then 2 else 0
    | 1 => 1
    | _ => 2
  else
    let indexed := if m.base = 4 then 1 else 0
    match m.form with
    | 0 =>
      if m.base = 5 then 4
      else if m.base = 4 ∧ next.any (fun b => b.toNat % 8 = 5) then 5
      else indexed
    | 1 => indexed + 1
    | _ => indexed + 4

/-- The memory operand is addressed from the instruction pointer. -/
def pointerRelative (mode : Mode) (m : OperandByte) : Bool :=
  mode = .bits64 && m.form = 0 && m.base = 5

/-- What follows the operand bytes. -/
inductive Immediate where
  | absent
  | byte
  | word
  | wordAndByte
  | twoBytes
  /-- As wide as the operands, at most four bytes. -/
  | operand
  /-- As wide as the operands. -/
  | fullOperand
  /-- As wide as addresses. -/
  | offset
  /-- A code segment and an offset as wide as the operands. -/
  | farPointer
  | shortTarget
  | nearTarget
  | transactionTarget
  deriving DecidableEq

/-- Width of a near displacement: 64-bit code always takes four bytes. -/
def nearWidth (mode : Mode) (operands : Width) : Width :=
  if mode = .bits64 then .four else operands

namespace Immediate

/-- Bytes that an immediate takes. -/
def bytes (mode : Mode) (p : Prefixes) : Immediate → Nat
  | absent => 0
  | byte => 1
  | word => 2
  | wordAndByte => 3
  | twoBytes => 2
  | operand => min 4 (operandWidth mode p).bytes
  | fullOperand => (operandWidth mode p).bytes
  | offset => (addressWidth mode p).bytes
  | farPointer => 2 + (operandWidth mode p).bytes
  | shortTarget => 1
  | nearTarget => (nearWidth mode (operandWidth mode p)).bytes
  | transactionTarget => min 4 (operandWidth mode p).bytes

end Immediate

/-- Bits that a branch target keeps. -/
def targetBits (mode : Mode) (p : Prefixes) (transaction : Bool) : Nat :=
  match mode with
  | .bits64 => 64
  | _ => if operandWidth mode p = .two ∧ transaction = false then 16 else 32

/-- The address that a displacement counted from `origin` denotes. -/
def branchTarget (origin : Nat) (displacement : Int) (bits : Nat) : Nat :=
  ((origin + displacement) % (2 ^ bits : Nat)).toNat

end CallProfiler.Instruction
