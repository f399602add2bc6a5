import CallProfiler.Instruction.Operand

/-!
# Forms of instructions

An opcode either stands for no instruction, or for one without an operand byte, or its operand byte
takes part in the choice.  `Entry` is that choice; the opcode maps (`CallProfiler.Instruction.Opcode`)
are functions into it.
-/

namespace CallProfiler.Instruction

/-- What an opcode, its prefixes and its operand byte determine about an instruction. -/
structure Form where
  immediate : Immediate := .absent
  flow : Flow := .next
  operation : Operation := .other
  /-- The bus may be locked for it if its operand lies in memory. -/
  lockable : Bool := false
  /-- The operand byte names registers in every addressing form. -/
  registersOnly : Bool := false

/-- What an opcode stands for. -/
inductive Entry where
  | invalid
  | plain (form : Form)
  | withOperand (select : OperandByte → Option Form)

/-- Which operands an instruction takes. -/
inductive Takes where
  | nothing
  | register
  | memory
  | either
  deriving DecidableEq

namespace Takes

def admits (t : Takes) (m : OperandByte) : Bool :=
  match t with
  | nothing => false
  | register => !m.isMemory
  | memory => m.isMemory
  | either => true

end Takes

namespace Entry

/-- One byte or more without an operand byte. -/
def simple (immediate : Immediate := .absent) : Entry := .plain { immediate }

/-- An operand byte of any shape. -/
def general (immediate : Immediate := .absent) : Entry := .withOperand fun _ => some { immediate }

/-- An operand byte that must name what `takes` allows. -/
def taking (takes : Takes) (immediate : Immediate := .absent) : Entry :=
  .withOperand fun m => if takes.admits m then some { immediate } else none

/-- An instruction for each selecting prefix, with the operands each takes. -/
def selected (s : Selector) (plain operandSize repeatEqual repeatNotEqual : Takes)
    (immediate : Immediate := .absent) : Entry :=
  let takes := match s with
    | .plain => plain
    | .operandSize => operandSize
    | .repeatEqual => repeatEqual
    | .repeatNotEqual => repeatNotEqual
  if takes = .nothing then .invalid else taking takes immediate

/-- Present in 16-bit and 32-bit code only. -/
def narrow (mode : Mode) (e : Entry) : Entry := if mode = .bits64 then .invalid else e

end Entry

end CallProfiler.Instruction
