import CallProfiler.Memory.Range
import CallProfiler.Memory.Protection
import CallProfiler.SystemFault

/-!
# An address space

The mapped regions of a process with their protection, and the bytes in them.  Mapping, unmapping
and changing protection work on whole pages; a mapping is granted at the address asked for or not
at all, and fresh memory is zero.
-/

namespace CallProfiler.Memory

/-- A mapped range of whole pages under one protection. -/
structure Region where
  range : Range
  protection : Protection
  deriving DecidableEq

/-- Mapped regions, sorted and disjoint, and the contents of memory.  The system may deny any request
for reasons of its own; `denies` says which, by their number. -/
structure Space where
  regions : List Region
  bytes : Nat → UInt8
  requests : Nat := 0
  denies : Nat → Bool := fun _ => false

namespace Space

/-- Nothing is mapped. -/
def empty : Space := { regions := [], bytes := fun _ => 0 }

/-- Mappings end at or below this address. -/
def userLimit : Nat := 2 ^ 47 - pageSize

/-- The mapped ranges in ascending order. -/
def occupied (s : Space) : List Range := s.regions.map (·.range)

/-- The protection of the page at an address, if one is mapped there. -/
def protectionAt (s : Space) (a : Nat) : Option Protection :=
  (s.regions.find? (·.range.contains a)).map (·.protection)

/-- How many bytes of a range are mapped. -/
def mappedBytes (s : Space) (r : Range) : Nat :=
  (s.regions.map fun g => (Range.mk (max g.range.start r.start) (min g.range.finish r.finish)).length).sum

/-! ## Bytes -/

/-- The `count` bytes from `a` on. -/
def read (s : Space) (a count : Nat) : List UInt8 :=
  (List.range count).map fun i => s.bytes (a + i)

/-- Stores bytes from `a` on. -/
def write (s : Space) (a : Nat) (data : List UInt8) : Space :=
  let data := data.toArray
  { s with bytes := fun x => if a ≤ x then (data[x - a]?).getD (s.bytes x) else s.bytes x }

/-- Stores one byte at every address of a range. -/
def fill (s : Space) (r : Range) (b : UInt8) : Space :=
  { s with bytes := fun x => if r.contains x then b else s.bytes x }

/-! ## Regions -/

/-- Puts a region in its place. -/
def insertRegion (g : Region) : List Region → List Region
  | [] => [g]
  | h :: rest => if g.range.start ≤ h.range.start then g :: h :: rest else h :: insertRegion g rest

/-- The region inside a range, if any of it is. -/
def clip (g : Region) (r : Range) : List Region :=
  let part : Range := ⟨max g.range.start r.start, min g.range.finish r.finish⟩
  if part.isEmpty then [] else [{ g with range := part }]

/-- Why a request to map pages is refused. -/
def mapFault? (s : Space) (address : Nat) (range : Range) : Option SystemFault :=
  if range.length = 0 then some .invalidArgument
  else if userLimit < range.finish then some .outOfMemory
  else if address % pageSize ≠ 0 then some .invalidArgument
  else if s.regions.any (·.range.meets range) then some .alreadyExists
  else if s.denies s.requests then some .outOfMemory
  else none

/-- Maps `length` bytes, rounded up to whole pages, exactly at `address`. -/
def map (s : Space) (address length : Nat) (p : Protection) : Except SystemFault Range × Space :=
  let range := Range.ofLength address (pageUp length)
  let s := { s with requests := s.requests + 1 }
  match s.mapFault? address range with
  | some fault => (.error fault, s)
  | none =>
    (.ok range, { s.fill range 0 with regions := insertRegion ⟨range, p⟩ s.regions })

/-- Removes whatever is mapped in a range. -/
def unmap (s : Space) (r : Range) : Space :=
  { s with
    regions := s.regions.flatMap fun g =>
      clip g ⟨0, r.start⟩ ++ clip g ⟨max r.start r.finish, g.range.finish⟩ }

/-- How far the regions cover memory from `a` on without a gap. -/
def coveredFrom (a : Nat) : List Region → Nat
  | [] => a
  | g :: rest => coveredFrom (if g.range.contains a then g.range.finish else a) rest

/-- The regions after the part of them inside `changed` got another protection. -/
def reprotect (regions : List Region) (changed : Range) (p : Protection) : List Region :=
  if changed.isEmpty then regions
  else
    regions.flatMap fun g =>
      clip g ⟨0, changed.start⟩ ++ (clip g changed).map ({ · with protection := p }) ++
        clip g ⟨changed.finish, g.range.finish⟩

/-- Changes the protection of a range of pages up to the first page that is not mapped; a missing
page is a fault. -/
def protect (s : Space) (r : Range) (p : Protection) : Option SystemFault × Space :=
  let s := { s with requests := s.requests + 1 }
  if r.isEmpty then (none, s)
  else if s.denies s.requests then (some .outOfMemory, s)
  else
    let covered := coveredFrom r.start s.regions
    (if r.finish ≤ covered then none else some .outOfMemory,
      { s with regions := reprotect s.regions ⟨r.start, min covered r.finish⟩ p })

end Space

end CallProfiler.Memory
