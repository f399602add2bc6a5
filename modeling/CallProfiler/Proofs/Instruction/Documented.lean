import CallProfiler.Proofs.Instruction.Runs

/-!
# What is documented of a decoder

Instructions are moved, copied and found again by what a decoder says of them, so some of what the
instruction set is documented to be has a part in whether that is right: an instruction is read from its
own bytes, wherever they lie; the displacement of a branch is at its end; and the few instructions that are
written into code are read as what they are.  `Decoder.Documented` collects this for 64-bit code.  It
leaves open which instructions there are otherwise, and what they do.
-/

namespace CallProfiler

open Bytes

/-- The relocation with another target, if it has one. -/
def Relocation.mapTarget (f : Nat → Nat) : Relocation → Relocation
  | .shortBranch target => .shortBranch (f target)
  | .nearBranch target => .nearBranch (f target)
  | .free => .free
  | .pointerRelative => .pointerRelative

namespace Instruction

/-! ## The bytes of an instruction -/

/-- The bytes at the end of an instruction hold its displacement, if it is a branch. -/
def Holds (i : Instruction) (held : List UInt8) : Prop :=
  match i.relocation with
  | .shortBranch target =>
    held.length = 1 ∧ target = branchTarget i.finish (signedLittleEndian held) 64
  | .nearBranch target => target = branchTarget i.finish (signedLittleEndian held) 64
  | _ => held = []

/-- The same instruction at another address with another displacement. -/
def withDisplacement (i : Instruction) (address : Nat) (held : List UInt8) : Instruction :=
  { i with
    address
    relocation := i.relocation.mapTarget fun _ =>
      branchTarget (address + i.length) (signedLittleEndian held) 64 }

/-- A reading is decided by `size` bytes: the last of them may hold a displacement, and whatever is
behind them has no part in it. -/
def Decided (read : Nat → List UInt8 → Option Instruction) (narrow : Prop) (bytes : List UInt8)
    (size : Nat) (i : Instruction) : Prop :=
  ∃ front held rest, bytes = front ++ (held ++ rest) ∧ front.length + held.length = size ∧
    i.Holds held ∧
    (∀ target, i.relocation = .nearBranch target → held.length = 4 ∨ narrow) ∧
    ∀ address held' rest', held'.length = held.length →
      read address (front ++ (held' ++ rest')) = some (i.withDisplacement address held')

/-- The displacement is that of a transaction with the operand-size prefix. -/
def HasNarrowTarget (i : Instruction) (bytes : List UInt8) : Prop :=
  i.flow = .transaction ∧
    operandWidth .bits64 (Prefixes.scan .bits64 (bytes.take maxLength)).1 = .two

/-! ## Decoders for 64-bit code -/

namespace Decoder

/-- A near branch takes at least four bytes: those of its displacement, or an opcode and two. -/
def NearBranchesLong (d : Decoder) : Prop :=
  ∀ ⦃bytes address i target⦄, d.first bytes address = some i →
    i.relocation = .nearBranch target → 4 ≤ i.length

theorem NearBranchesLong.of_prologue
    {d : Decoder} {bytes : List UInt8} {address need : Nat} {run : List Instruction}
    (near : d.NearBranchesLong)
    (h : d.prologue bytes address need = some run) :
    ∀ i ∈ run, ∀ target, i.relocation = .nearBranch target → 4 ≤ i.length := by
  intro i hi target hbranch
  obtain ⟨_, _, hfirst⟩ := first_of_mem (spells_of_prologue h) i hi
  exact near hfirst hbranch

/-- What is documented of reading 64-bit code. -/
structure Documented (d : Decoder) : Prop where
  /-- An instruction is read from its own bytes alone, and its address matters only where a branch leads.
  A short branch has a displacement of one byte and a near branch one of four, at the end; only that of a
  transaction with the operand-size prefix has two. -/
  decided : ∀ {bytes address i}, d.first bytes address = some i →
    Decided (fun address bytes => d.first bytes address) (i.HasNarrowTarget bytes) bytes i.length i
  near : d.NearBranchesLong
  /-- `nop` -/
  nop : ∀ rest address, d.first (0x90 :: rest) address = some ⟨address, 1, .free, .next, .nop⟩
  /-- `jmp rel8` -/
  shortJump : ∀ b rest address, d.first (0xEB :: b :: rest) address =
    some ⟨address, 2, .shortBranch (branchTarget (address + 2) (signedLittleEndian [b]) 64), .jump, .other⟩
  /-- `call rel32` and `jmp rel32` -/
  nearJump : ∀ opcode flow, opcode = 0xE8 ∧ flow = .call ∨ opcode = 0xE9 ∧ flow = .jump →
    ∀ b c e f rest address, d.first (opcode :: b :: c :: e :: f :: rest) address =
      some ⟨address, 5, .nearBranch (branchTarget (address + 5) (signedLittleEndian [b, c, e, f]) 64),
        flow, .other⟩
  /-- `jmp [rip + disp32]` -/
  longJump : ∀ b c e f rest address, d.first (0xFF :: 0x25 :: b :: c :: e :: f :: rest) address =
    some ⟨address, 6, .pointerRelative, .indirectJump, .other⟩

end Decoder

end Instruction

end CallProfiler
