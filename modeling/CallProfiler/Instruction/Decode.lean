import CallProfiler.Bytes.Number
import CallProfiler.Instruction.Opcode.OneByte
import CallProfiler.Instruction.Opcode.TwoByte
import CallProfiler.Instruction.Opcode.ThreeByte
import CallProfiler.Instruction.Opcode.Floating

/-!
# Decoding one instruction

Input: bytes, the address they lie at, and the mode.
`Instruction.decode` reads the first instruction: prefixes, opcode, operand bytes, immediate.
No answer means that the bytes stop early or stand for no instruction.  Only the first
`Instruction.maxLength` bytes are looked at, and the length of an instruction is the number of
bytes it takes of them.
-/

namespace CallProfiler.Instruction

/-- The map of opcodes that are not escaped. -/
def Opcode.oneByte (mode : Mode) (p : Prefixes) (opcode : Nat) : Entry :=
  if opcode < 0x40 then arithmetic mode opcode
  else if opcode < 0x60 then .simple
  else if opcode < 0x70 then stackAndPort mode opcode
  else if opcode < 0x80 then .plain { immediate := .shortTarget, flow := .conditionalJump }
  else if opcode < 0x90 then move mode opcode
  else if opcode < 0xA0 then exchange mode p opcode
  else if opcode < 0xB0 then string opcode
  else if opcode < 0xB8 then .simple .byte
  else if opcode < 0xC0 then .simple .fullOperand
  else if opcode < 0xD0 then returnAndInterrupt mode opcode
  else if opcode < 0xD8 then shift mode opcode
  else if opcode < 0xE0 then floating opcode
  else if opcode < 0xF0 then branch mode opcode
  else flagAndUnary opcode

/-- The entry that the opcode bytes select, how many they are, and the bytes behind them. -/
def readOpcode (mode : Mode) (p : Prefixes) : List UInt8 → Option (Entry × Nat × List UInt8)
  | [] => none
  | 0x0F :: rest =>
    match rest with
    | [] => none
    | 0x38 :: code :: tail => some (Opcode.vectorExtended mode p.selector code.toNat, 3, tail)
    | 0x3A :: code :: tail => some (Opcode.vectorImmediate p.selector code.toNat, 3, tail)
    | 0x38 :: [] => none
    | 0x3A :: [] => none
    | code :: tail => some (Opcode.twoByte mode p code.toNat, 2, tail)
  | code :: tail => some (Opcode.oneByte mode p code.toNat, 1, tail)

/-- The branch displacement that an immediate holds, as a relocation. -/
def relocationOf (mode : Mode) (p : Prefixes) (immediate : Immediate) (finish : Nat)
    (bytes : List UInt8) : Relocation :=
  match immediate with
  | .shortTarget =>
    .shortBranch (branchTarget finish (Bytes.signedLittleEndian bytes) (targetBits mode p false))
  | .nearTarget =>
    .nearBranch (branchTarget finish (Bytes.signedLittleEndian bytes) (targetBits mode p false))
  | .transactionTarget =>
    .nearBranch (branchTarget finish (Bytes.signedLittleEndian bytes) (targetBits mode p true))
  | _ => .free

/-- Reads the immediate behind `start` bytes and puts the instruction together. -/
def complete (mode : Mode) (p : Prefixes) (form : Form) (address start : Nat) (inMemory relative : Bool)
    (rest : List UInt8) : Option Instruction :=
  let width := form.immediate.bytes mode p
  let length := start + width
  if rest.length < width then none
  else if p.lock ∧ ¬(form.lockable ∧ inMemory) then none
  else some
    { address, length
      relocation :=
        if relative then .pointerRelative
        else relocationOf mode p form.immediate (address + length) (rest.take width)
      flow := form.flow
      operation := form.operation }

/-- Reads the operand bytes of an entry that has them and goes on to the immediate. -/
def withOperand (mode : Mode) (p : Prefixes) (select : OperandByte → Option Form)
    (address start : Nat) : List UInt8 → Option Instruction
  | [] => none
  | byte :: rest => do
    let m := OperandByte.ofByte byte
    let form ← select m
    if form.registersOnly then
      complete mode p form address (start + 1) false false rest
    else
      let width := displacementBytes (addressWidth mode p) m rest.head?
      if rest.length < width then none
      else
        complete mode p form address (start + 1 + width) m.isMemory (pointerRelative mode m)
          (rest.drop width)

/-- The opcode map behind `0F 0F` is read from the byte behind the operands. -/
def withSuffix (mode : Mode) (p : Prefixes) (address start : Nat) (rest : List UInt8) :
    Option Instruction := do
  let i ← withOperand mode p (fun _ => some { immediate := .byte }) address start rest
  let suffix ← (rest.drop (i.length - start - 1)).head?
  if Opcode.floatingPair suffix.toNat then some i else none

/-- The first instruction of `bytes`, which lie at `address`. -/
def decode (bytes : List UInt8) (address : Nat) (mode : Mode) : Option Instruction :=
  let (p, code) := Prefixes.scan mode (bytes.take maxLength)
  match code with
  | 0x0F :: 0x0F :: rest => withSuffix mode p address (p.count + 2) rest
  | _ =>
    match readOpcode mode p code with
    | none => none
    | some (.invalid, _, _) => none
    | some (.plain form, size, rest) =>
      complete mode p form address (p.count + size) false false rest
    | some (.withOperand select, size, rest) =>
      withOperand mode p select address (p.count + size) rest

end CallProfiler.Instruction
