import CallProfiler.Code.Patch
import CallProfiler.Image.Fleet

/-!
# The host that patches memory

Allocators, guards and patches of a process: code is made writable by changing page protection, and
patches are built in the process's own memory.
-/

namespace CallProfiler.Image

open Instruction (Decoder)

/-- A process with its guards and patches. -/
structure Machine where
  arena : Memory.Arena
  hooks : Code.Hooks
  blockSize : Nat
  guards : List (Nat × Memory.Guard) := []
  patches : List (Nat × Code.Patch) := []
  /-- For every attempt to build a patch that got memory, the last block it got. -/
  attempts : List Memory.Block := []
  next : Nat := 0

namespace Machine

def withSpace (p : Machine) (s : Memory.Space) : Machine := { p with arena := { p.arena with space := s } }

def createAllocator (span : Memory.Range) (p : Machine) : Option Nat × Machine :=
  let (id, arena) := p.arena.createAllocator span Memory.Allocator.displacementOrder p.blockSize
  (some id, { p with arena })

def protect (region : Memory.Region) (p : Machine) : Option Nat × Machine :=
  match Memory.Guard.take p.arena.space region.range .all region.protection with
  | (.error _, s) => (none, p.withSpace s)
  | (.ok guard, s) =>
    (some p.next, { p.withSpace s with next := p.next + 1, guards := p.guards ++ [(p.next, guard)] })

def release (guard : Nat) (p : Machine) : Machine :=
  match p.guards.lookup guard with
  | none => p
  | some g =>
    { p.withSpace (g.release p.arena.space) with guards := p.guards.filter (·.1 ≠ guard) }

/-- Builds a patch that reports the address of its function. -/
def build (d : Decoder) (site : Site) (allocator : Nat) (p : Machine) : Built × Machine :=
  let allocate : Code.BlockSource := fun m size => m.allocate allocator size
  let arena := { p.arena with latest := none }
  let (result, arena) := Code.Patch.build arena allocate p.hooks site.address site.size site.address d
  let p := { p with arena, attempts := p.attempts ++ arena.latest.toList }
  match result with
  | .error _ => (.refused, p)
  | .ok patch => (.built p.next, { p with next := p.next + 1, patches := p.patches ++ [(p.next, patch)] })

/-- Switches a patch by a function on patches and memory. -/
def switch (f : Memory.Space → Code.Patch → Bool × Code.Patch × Memory.Space) (patch : Nat)
    (p : Machine) : Machine :=
  match p.patches.lookup patch with
  | none => p
  | some x =>
    let (_, x, s) := f p.arena.space x
    { p.withSpace s with patches := p.patches.map fun (k, y) => (k, if k = patch then x else y) }

/-- Ends a patch by a function on the arena. -/
def finish (f : Memory.Arena → Code.Patch → Memory.Arena) (patch : Nat) (p : Machine) : Machine :=
  match p.patches.lookup patch with
  | none => p
  | some x => { p with arena := f p.arena x, patches := p.patches.filter (·.1 ≠ patch) }

/-- The host that patches memory. -/
def host (d : Decoder := .ofMode .bits64) : Host Machine where
  createAllocator := createAllocator
  dropAllocator := fun a p => { p with arena := p.arena.dropAllocator a }
  protect := protect
  release := release
  build := build d
  activate := fun patch p => (.done, p.switch Code.Patch.activate patch)
  revert := fun patch p => p.switch Code.Patch.revert patch
  isActive := fun patch p => (p.patches.lookup patch).any (·.active)
  remove := finish Code.Patch.remove
  detach := finish Code.Patch.detach

/-- The hosts of registries in one process; nothing is observed. -/
def crew (d : Decoder := .ofMode .bits64) : Crew Machine := ⟨fun _ => host d, fun _ _ p => p⟩

end Machine

end CallProfiler.Image
