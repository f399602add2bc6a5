import CallProfiler.Memory.Range

/-!
# Gaps between allocations

Input: occupied ranges, meant to be sorted and disjoint, a location and a size.
`gapAbove?` scans the ranges upwards from the location and `gapBelow?` downwards; each gives the
first place where the size fits.
-/

namespace CallProfiler.Memory

/-- Moves `candidate` up over the ranges in its way; no answer when a candidate would leave the
address space before the scan ends. -/
def scanUp (size candidate : Nat) : List Range → Option Nat
  | [] => if candidate + size < addressLimit then some candidate else none
  | r :: rest =>
    if r.finish ≤ candidate then scanUp size candidate rest
    else if addressLimit ≤ candidate + size then none
    else if candidate + size ≤ r.start then some candidate
    else scanUp size r.finish rest

/-- The lowest address from `location` on where `size` free bytes fit. -/
def gapAbove? (location : Nat) (occupied : List Range) (size : Nat) : Option Nat :=
  scanUp size location occupied

/-- Moves `candidate` down below the ranges in its way, which come from the top. -/
def scanDown (size candidate : Nat) : List Range → Option Nat
  | [] => some candidate
  | r :: rest =>
    if candidate + size ≤ r.start then scanDown size candidate rest
    else if r.finish ≤ candidate then some candidate
    else if size ≤ r.start then scanDown size (r.start - size) rest
    else none

/-- The highest address whose `size` free bytes end at or below `location`. -/
def gapBelow? (location : Nat) (occupied : List Range) (size : Nat) : Option Nat :=
  if size ≤ location then scanDown size (location - size) occupied.reverse else none

end CallProfiler.Memory
