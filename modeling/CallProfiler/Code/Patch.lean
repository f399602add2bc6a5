import CallProfiler.Code.Jumper
import CallProfiler.Code.MovedPrologue
import CallProfiler.Code.Trampoline
import CallProfiler.Memory.Arena

/-!
# Patches

A patch diverts one function into a trampoline.  The first kind uses a jumper.  The second is for
functions that a jumper refuses: it moves the leading instructions behind the trampoline and
overwrites the first five bytes of the function by a near jump.  Both can be switched on and off,
removed, or given up with the code left as it is.
-/

namespace CallProfiler.Code

open Memory
open Instruction (Decoder)

/-- Where blocks for trampolines come from. -/
abbrev BlockSource := Arena → Nat → Except Memory.Fault (Nat × Block) × Arena

/-- Bytes of a near jump. -/
def nearJumpSize : Nat := 5

/-- The near jump at `origin` to `target`. -/
def nearJump (origin target : Nat) : Except Fault (List UInt8) :=
  (displacement (origin + nearJumpSize) target).map (0xE9 :: ·)

/-- The stores that put five bytes over the start of a function, as offsets and bytes: a jump to
itself holds up whoever enters meanwhile. -/
def entryStores (code : List UInt8) : List (Nat × List UInt8) :=
  [(0, [0xEB, 0xFE]), (2, code.drop 2), (0, code.take 2)]

/-- Puts five bytes over the start of a function, store by store. -/
def writeEntry (s : Space) (target : Nat) (code : List UInt8) : Space :=
  (entryStores code).foldl (fun s store => s.write (target + store.1) store.2) s

/-- A jumper and the trampoline it leads to. -/
structure JumperPatch where
  jumper : Jumper
  /-- The number of the trampoline's block. -/
  key : Nat
  block : Block
  deriving DecidableEq

/-- A near jump and the block with the trampoline and the moved instructions. -/
structure MovingPatch where
  target : Nat
  jump : List UInt8
  /-- The first bytes of the function from before it was diverted. -/
  saved : List UInt8
  active : Bool
  /-- The number of the block. -/
  key : Nat
  block : Block
  deriving DecidableEq

/-- Where the moved instructions of a patch start. -/
def MovingPatch.entry (p : MovingPatch) : Nat := p.block.address + Trampoline.size

/-- An instrumentation of one function that can be switched. -/
inductive Patch where
  | jumper (patch : JumperPatch)
  | moving (patch : MovingPatch)
  deriving DecidableEq

/-- Stores code in a block of the arena. -/
def place (m : Arena) (b : Block) (code : List UInt8) : Arena :=
  { m with space := m.space.write b.address code }

/-- Builds an inactive patch of the function at `target` with a jumper. -/
def JumperPatch.build (m : Arena) (allocate : BlockSource) (hooks : Hooks) (target id : Nat)
    (d : Decoder := .ofMode .bits64) : Except Fault JumperPatch × Arena :=
  match allocate m Trampoline.size with
  | (.error fault, m) => (.error (.memory fault), m)
  | (.ok (key, block), m) =>
    match Jumper.install m.space target block.address d with
    | .error fault => (.error (.jumper fault), m.free key)
    | .ok (jumper, space) =>
      match Trampoline.render block.address id hooks jumper.entry with
      | .error fault => (.error fault, { m with space := jumper.remove space }.free key)
      | .ok code => (.ok ⟨jumper, key, block⟩, place { m with space } block code)

/-- The code of a moving patch's block, and the jump that leads to the block. -/
def MovingPatch.code (window : List UInt8) (prologue : List Instruction) (hooks : Hooks)
    (target id block : Nat) : Except Fault (List UInt8 × List UInt8) := do
  let length := (prologue.map (·.length)).sum
  let entry := block + Trampoline.size
  let trampoline ← Trampoline.render block id hooks entry
  let moved ← moveInstructions window prologue entry
  let back ← nearJump (entry + length) (target + length)
  let jump ← nearJump target block
  return (trampoline ++ moved ++ back, jump)

/-- Builds an inactive patch of the `size` bytes of function at `target` by moving its start. -/
def MovingPatch.build (m : Arena) (allocate : BlockSource) (hooks : Hooks) (target size id : Nat)
    (d : Decoder := .ofMode .bits64) : Except Fault MovingPatch × Arena :=
  if size < nearJumpSize then (.error (.immovable target .functionTooShort), m)
  else
    let window := m.space.read target (min size (nearJumpSize + Instruction.maxLength))
    match d.prologue window target nearJumpSize with
    | none => (.error (.undecodable target), m)
    | some prologue =>
      let length := (prologue.map (·.length)).sum
      if size < length then (.error (.immovable target .pastFunctionEnd), m)
      else
        match allocate m (Trampoline.size + length + nearJumpSize) with
        | (.error fault, m) => (.error (.memory fault), m)
        | (.ok (key, block), m) =>
          match MovingPatch.code window prologue hooks target id block.address with
          | .error fault => (.error fault, m.free key)
          | .ok (code, jump) =>
            (.ok { target, jump, saved := [], active := false, key, block }, place m block code)

namespace Patch

/-- Builds an inactive patch of a function: with a jumper, or if the jumper refuses and the size of
the function is known, by moving its start. -/
def build (m : Arena) (allocate : BlockSource) (hooks : Hooks) (target size id : Nat)
    (d : Decoder := .ofMode .bits64) : Except Fault Patch × Arena :=
  match JumperPatch.build m allocate hooks target id d with
  | (.ok p, m) => (.ok (.jumper p), m)
  | (.error (.jumper fault), m) =>
    if size = 0 then (.error (.jumper fault), m)
    else
      match MovingPatch.build m allocate hooks target size id d with
      | (.ok p, m) => (.ok (.moving p), m)
      | (.error fault, m) => (.error fault, m)
  | (.error fault, m) => (.error fault, m)

def target : Patch → Nat
  | jumper p => p.jumper.target
  | moving p => p.target

def active : Patch → Bool
  | jumper p => p.jumper.active
  | moving p => p.active

/-- The number of the patch's block. -/
def key : Patch → Nat
  | jumper p => p.key
  | moving p => p.key

def block : Patch → Block
  | jumper p => p.block
  | moving p => p.block

/-- Diverts the function; says whether that changed anything. -/
def activate (s : Space) : Patch → Bool × Patch × Space
  | jumper p =>
    let (changed, j, s) := p.jumper.activate s
    (changed, jumper { p with jumper := j }, s)
  | moving p =>
    if p.active then (false, moving p, s)
    else
      (true, moving { p with saved := s.read p.target nearJumpSize, active := true },
        writeEntry s p.target p.jump)

/-- Gives the function its own bytes back; says whether that changed anything. -/
def revert (s : Space) : Patch → Bool × Patch × Space
  | jumper p =>
    let (changed, j, s) := p.jumper.revert s
    (changed, jumper { p with jumper := j }, s)
  | moving p =>
    if p.active then (true, moving { p with active := false }, writeEntry s p.target p.saved)
    else (false, moving p, s)

/-- Ends the diversion, restores everything around the function and frees the block. -/
def remove (m : Arena) : Patch → Arena
  | jumper p => { m with space := p.jumper.remove m.space }.free p.key
  | moving p => { m with space := (revert m.space (moving p)).2.2 }.free p.key

/-- Leaves the code as it is and frees the block. -/
def detach (m : Arena) (p : Patch) : Arena := m.free p.key

end Patch

end CallProfiler.Code
