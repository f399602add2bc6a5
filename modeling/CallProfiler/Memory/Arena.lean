import CallProfiler.Memory.Gap
import CallProfiler.Memory.Guard

/-!
# Executable memory near a reference

An allocator carves blocks from a reservation of pages that may be written and executed, and takes
a new reservation, as near above or below its reference as memory is free, when the current one is
full.  A reservation stays mapped until its last block is freed and its allocator has moved on.
-/

namespace CallProfiler.Memory

/-- Blocks start at and are as long as multiples of this. -/
def blockAlignment : Nat := 16

/-- The length of the block for a request: at least one unit. -/
def blockLength (size : Nat) : Nat :=
  (max size 1 + (blockAlignment - 1)) / blockAlignment * blockAlignment

/-- Pages that blocks are carved from, front to back. -/
structure Reservation where
  range : Range
  used : Nat
  deriving DecidableEq

/-- The address of the next `size` bytes, if they are left. -/
def Reservation.carve? (r : Reservation) (size : Nat) : Option (Nat × Reservation) :=
  if r.used + size ≤ r.range.length then some (r.range.start + r.used, { r with used := r.used + size })
  else none

/-- Hands out blocks near a reference. -/
structure Allocator where
  reference : Range
  /-- Every byte of a block is less than two to this power, halved, away from the reference. -/
  order : Nat
  blockSize : Nat
  /-- The number of the reservation in use. -/
  current : Option Nat
  deriving DecidableEq

namespace Allocator

/-- No allocator serves more distant blocks than a signed 32-bit displacement spans. -/
def displacementOrder : Nat := 32

/-- The size of a reservation unless another is asked for. -/
def defaultBlockSize : Nat := 0x10000

/-- The distance that all bytes of a block keep below. -/
def reach (order : Nat) : Nat := if order - 1 < 64 then 2 ^ (order - 1) else addressLimit - 1

/-- The farthest bytes of the reference and of a block are less than `reach` apart. -/
def withinReach (reference : Range) (location size reach : Nat) : Bool :=
  if reference.finish ≤ location then location + size - reference.start < reach
  else reference.finish - location < reach

/-- Where a new reservation may lie: the nearest gap above, then the nearest gap below. -/
def locations (a : Allocator) (occupied : List Range) : List Nat :=
  let reference := a.reference.pages
  let admissible := fun location => withinReach reference location a.blockSize (reach a.order)
  ((gapAbove? reference.finish occupied a.blockSize).filter admissible).toList ++
    ((gapBelow? reference.start occupied a.blockSize).filter admissible).toList

end Allocator

/-- A chunk of executable memory. -/
structure Block where
  address : Nat
  length : Nat
  /-- The number of the reservation it was carved from. -/
  reservation : Nat
  deriving DecidableEq

/-- An address space with its allocators, their reservations and the blocks in use.  Allocators,
reservations and blocks are known by the numbers they were given. -/
structure Arena where
  space : Space
  allocators : List (Nat × Allocator) := []
  reservations : List (Nat × Reservation) := []
  blocks : List (Nat × Block) := []
  /-- The block handed out last, whether or not it is still in use. -/
  latest : Option Block := none
  next : Nat := 0

namespace Arena

/-- The number's entry is replaced, or put last if there is none. -/
def put {α : Type} (key : Nat) (value : α) : List (Nat × α) → List (Nat × α)
  | [] => [(key, value)]
  | (k, v) :: rest => if k = key then (key, value) :: rest else (k, v) :: put key value rest

def remove {α : Type} (key : Nat) (entries : List (Nat × α)) : List (Nat × α) :=
  entries.filter (·.1 ≠ key)

/-- Some block lies in the reservation or some allocator carves from it. -/
def isHeld (m : Arena) (reservation : Nat) : Bool :=
  m.blocks.any (·.2.reservation = reservation) ||
    m.allocators.any (·.2.current = some reservation)

/-- Unmaps the reservations that nothing holds any more. -/
def sweep (m : Arena) : Arena :=
  { m with
    space := (m.reservations.filter fun r => !m.isHeld r.1).foldl (fun s r => s.unmap r.2.range) m.space
    reservations := m.reservations.filter fun r => m.isHeld r.1 }

/-- A new allocator; it reserves nothing before its first block. -/
def createAllocator (m : Arena) (reference : Range) (order blockSize : Nat) : Nat × Arena :=
  (m.next,
    { m with
      allocators := m.allocators ++ [(m.next, ⟨reference, order, blockSize, none⟩)]
      next := m.next + 1 })

/-- Drops an allocator; its blocks stay. -/
def dropAllocator (m : Arena) (id : Nat) : Arena :=
  sweep { m with allocators := remove id m.allocators }

/-- Maps a reservation at the first of the locations that is granted. -/
def reserveAt (s : Space) (size : Nat) : List Nat → Option Range × Space
  | [] => (none, s)
  | location :: rest =>
    match s.map location size .all with
    | (.ok range, s) => (some range, s)
    | (.error _, s) => reserveAt s size rest

/-- Notes a block at an address of a reservation. -/
def addBlock (m : Arena) (block : Block) : Nat × Block × Arena :=
  (m.next, block,
    { m with blocks := m.blocks ++ [(m.next, block)], latest := some block, next := m.next + 1 })

/-- Carves a block from a new reservation and makes that the allocator's current one. -/
def allocateFresh (m : Arena) (id : Nat) (a : Allocator) (size : Nat) :
    Except Fault (Nat × Block) × Arena :=
  match reserveAt m.space a.blockSize (a.locations m.space.occupied) with
  | (none, space) => (.error (.outOfReach a.reference), { m with space })
  | (some range, space) =>
    let number := m.next
    let m : Arena := { m with
      space
      next := m.next + 1
      reservations := m.reservations ++ [(number, { range, used := size })]
      allocators := put id { a with current := some number } m.allocators }
    let (key, block, m) := m.addBlock ⟨range.start, size, number⟩
    (.ok (key, block), m.sweep)

/-- A block of at least `size` bytes from an allocator. -/
def allocate (m : Arena) (id : Nat) (size : Nat) : Except Fault (Nat × Block) × Arena :=
  let size := blockLength size
  match m.allocators.lookup id with
  | none => (.error (.system .invalidArgument), m)
  | some a =>
    if a.blockSize < size then (.error (.tooLarge size a.blockSize), m)
    else
      match a.current.bind fun number => do
          let (address, r) ← (← m.reservations.lookup number).carve? size
          pure (number, address, r) with
      | some (number, address, r) =>
        let carved : Arena := { m with reservations := put number r m.reservations }
        let (key, block, m) := carved.addBlock ⟨address, size, number⟩
        (.ok (key, block), m)
      | none => m.allocateFresh id a size

/-- A block of `size` bytes at the start of a fresh page of its own at `address`. -/
def allocateAt (m : Arena) (address size : Nat) : Except Fault (Nat × Block) × Arena :=
  match m.space.map address pageSize .all with
  | (.error cause, space) => (.error (.mapFailed pageSize cause), { m with space })
  | (.ok range, space) =>
    let m : Arena := { m with
      space
      next := m.next + 1
      reservations := m.reservations ++ [(m.next, { range, used := size })] }
    let (key, block, m) := m.addBlock ⟨address, size, m.next - 1⟩
    (.ok (key, block), m)

/-- Gives a block back. -/
def free (m : Arena) (id : Nat) : Arena := sweep { m with blocks := remove id m.blocks }

end Arena

end CallProfiler.Memory
