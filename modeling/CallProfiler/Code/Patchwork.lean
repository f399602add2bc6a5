import CallProfiler.Code.Patch

/-!
# Many patches in one code

Patches of different functions are built, switched and dropped in any order, each by its number.  The
bytes that a patch may change while it lives are its footprint.
-/

namespace CallProfiler.Code

open Memory
open Instruction (Decoder)

/-- The bytes that a patch changes while it lives: the stub in front of the function and the short
jump to it, or the near jump. -/
def Patch.footprint : Patch → Range
  | jumper p => ⟨p.jumper.padding.start, p.jumper.target + shortJumpSize⟩
  | moving p => ⟨p.target, p.target + nearJumpSize⟩

/-- An arena and the live patches in it.  Patches are numbered in the order they are built. -/
structure Patchwork where
  arena : Arena
  live : Nat → Option Patch := fun _ => none
  next : Nat := 0

namespace Patchwork

/-- What can be asked for. -/
inductive Turn where
  /-- A patch of the function at `target`, of `size` bytes or of unknown size. -/
  | build (hooks : Hooks) (allocate : BlockSource) (target size : Nat)
  | activate (number : Nat)
  | revert (number : Nat)
  | drop (number : Nat)

/-- The number stands for the patch, or for none. -/
def set (w : Patchwork) (number : Nat) (patch : Option Patch) : Patchwork :=
  { w with live := fun k => if k = number then patch else w.live k }

/-- Builds a patch and gives it the next number; after a fault nothing is numbered. -/
def build (d : Decoder) (w : Patchwork) (hooks : Hooks) (allocate : BlockSource) (target size : Nat) :
    Patchwork :=
  match Patch.build w.arena allocate hooks target size target d with
  | (.error _, arena) => { w with arena }
  | (.ok p, arena) => { w with arena, next := w.next + 1 }.set w.next (some p)

/-- Switches a live patch. -/
def switch (w : Patchwork) (change : Space → Patch → Bool × Patch × Space) (number : Nat) : Patchwork :=
  match w.live number with
  | none => w
  | some p =>
    let (_, p, space) := change w.arena.space p
    { w with arena := { w.arena with space } }.set number (some p)

/-- Removes a live patch. -/
def drop (w : Patchwork) (number : Nat) : Patchwork :=
  match w.live number with
  | none => w
  | some p => { w with arena := p.remove w.arena }.set number none

def step (d : Decoder) (w : Patchwork) : Turn → Patchwork
  | .build hooks allocate target size => w.build d hooks allocate target size
  | .activate number => w.switch Patch.activate number
  | .revert number => w.switch Patch.revert number
  | .drop number => w.drop number

def run (d : Decoder) (w : Patchwork) (turns : List Turn) : Patchwork := turns.foldl (step d) w

/-- No two live patches may change the same byte. -/
def Apart (w : Patchwork) : Prop :=
  ∀ j k p q, j ≠ k → w.live j = some p → w.live k = some q → p.footprint.meets q.footprint = false

/-- The same as a computation over the numbers given so far. -/
def isApart (w : Patchwork) : Bool :=
  let footprint? k := (w.live k).map Patch.footprint
  (List.range w.next).all fun j => (List.range w.next).all fun k =>
    j = k || (footprint? j).all fun r => (footprint? k).all fun r' => !r.meets r'

end Patchwork

end CallProfiler.Code
