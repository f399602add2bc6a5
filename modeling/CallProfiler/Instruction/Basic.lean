import CallProfiler.Instances

/-!
# Instructions as a patcher sees them

A patcher that moves machine code needs four facts about an instruction: how long it is, whether its
meaning depends on where it lies, where control goes after it, and whether it is a no-operation or a
breakpoint.  This module holds the types of those facts; reading them from bytes is the work of
`CallProfiler.Instruction.Decode`.
-/

namespace CallProfiler

/-- Width of the code that an instruction is decoded as. -/
inductive Mode where
  | bits16
  | bits32
  | bits64
  deriving DecidableEq

/-- How the meaning of an instruction depends on its own address. -/
inductive Relocation where
  /-- The bytes mean the same at every address. -/
  | free
  /-- A branch whose displacement is a single byte. -/
  | shortBranch (target : Nat)
  /-- A branch with a wider displacement. -/
  | nearBranch (target : Nat)
  /-- A memory operand addressed from the instruction pointer. -/
  | pointerRelative
  deriving DecidableEq

/-- Where control goes after an instruction. -/
inductive Flow where
  | next
  | jump
  | indirectJump
  | conditionalJump
  | ret
  | call
  | indirectCall
  | interrupt
  | transaction
  | exception
  deriving DecidableEq

/-- The operations that a patcher tells apart from all others. -/
inductive Operation where
  | nop
  | breakpoint
  | other
  deriving DecidableEq

/-- A decoded instruction at a known address. -/
structure Instruction where
  address : Nat
  length : Nat
  relocation : Relocation
  flow : Flow
  operation : Operation
  deriving DecidableEq

namespace Instruction

/-- No instruction is longer than this. -/
def maxLength : Nat := 15

/-- The address just behind the instruction. -/
def finish (i : Instruction) : Nat := i.address + i.length

def isNop (i : Instruction) : Bool := i.operation = .nop

def isBreakpoint (i : Instruction) : Bool := i.operation = .breakpoint

def isCall (i : Instruction) : Bool := i.flow = .call

/-- Control never falls through to the next instruction. -/
def endsFlow (i : Instruction) : Bool :=
  i.flow = .ret || i.flow = .jump || i.flow = .indirectJump

end Instruction

end CallProfiler
