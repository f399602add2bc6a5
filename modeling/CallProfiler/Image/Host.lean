import CallProfiler.Image.Mapping

/-!
# What patches are made of

The registry of patches asks a host for everything that touches memory: allocators, writable code,
and the patches themselves.  Allocators, guards and patches are known by numbers that the host gives
out.  Any request may be refused, and building or switching a patch may also be abandoned half-way.
-/

namespace CallProfiler.Image

/-- A function about to be patched. -/
structure Site where
  address : Nat
  /-- Bytes of the function, zero if that is not known. -/
  size : Nat
  /-- The number of the record that the patch is for. -/
  id : Nat
  deriving DecidableEq

/-- How building a patch ends. -/
inductive Built where
  | built (patch : Nat)
  | refused
  | abandoned
  deriving DecidableEq

/-- How switching a patch on ends. -/
inductive Switched where
  | done
  | failed
  | abandoned
  deriving DecidableEq

/-- What a host with state `σ` does on request. -/
structure Host (σ : Type) where
  /-- An allocator of executable memory near a range. -/
  createAllocator : Memory.Range → σ → Option Nat × σ
  dropAllocator : Nat → σ → σ
  /-- Makes a region writable until the guard is released. -/
  protect : Memory.Region → σ → Option Nat × σ
  release : Nat → σ → σ
  /-- Builds a patch with memory from an allocator. -/
  build : Site → Nat → σ → Built × σ
  activate : Nat → σ → Switched × σ
  revert : Nat → σ → σ
  isActive : Nat → σ → Bool
  /-- Ends a patch and restores the code around it. -/
  remove : Nat → σ → σ
  /-- Ends a patch and leaves the code as it is. -/
  detach : Nat → σ → σ

namespace Host

variable {σ : Type}

/-- Releases guards in the order they were taken. -/
def releaseAll (host : Host σ) (guards : List Nat) (s : σ) : σ :=
  guards.foldl (fun s g => host.release g s) s

/-- Makes regions writable one after the other; if one is refused, those before are released. -/
def relaxFrom (host : Host σ) (taken : List Nat) : List Memory.Region → σ → Option (List Nat) × σ
  | [], s => (some taken, s)
  | r :: rest, s =>
    match host.protect r s with
    | (some g, s) => relaxFrom host (taken ++ [g]) rest s
    | (none, s) => (none, host.releaseAll taken s)

/-- Makes the code of a mapping writable. -/
def relax (host : Host σ) (m : Mapping) (s : σ) : Option (List Nat) × σ :=
  host.relaxFrom [] m.executableRegions s

end Host

end CallProfiler.Image
