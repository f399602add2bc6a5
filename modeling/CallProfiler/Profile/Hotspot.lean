import CallProfiler.Profile.CallTree
import CallProfiler.Text.Hex

/-!
# Hotspots

Functions ranked by the time spent in their own bodies, whatever path they were reached by.
-/

namespace CallProfiler.Profile

/-- The totals of one function. -/
structure Hotspot where
  address : UInt64
  name : Option String
  statistics : Statistics
  /-- Its share of the exclusive time of all functions, in percent. -/
  percentage : Float

/-- What gives names to addresses. -/
abbrev Names := UInt64 → Option String

/-- How an address is written where it has no name. -/
def addressText (a : UInt64) : String := Text.hex a.toNat

namespace Hotspot

/-- The name, or the address if there is none. -/
def displayName (h : Hotspot) : String := h.name.getD (addressText h.address)

/-- Fills in a name if there is none yet. -/
def resolve (names : Names) (h : Hotspot) : Hotspot :=
  { h with name := h.name.orElse fun _ => names h.address }

/-- The order of the ranking: more exclusive time first, then the lower address. -/
def ranksBefore (a b : UInt64 × Statistics) : Bool :=
  b.2.exclusiveTime < a.2.exclusiveTime ||
    (a.2.exclusiveTime = b.2.exclusiveTime && a.1 ≤ b.1)

/-- The exclusive time that shares are taken of; times below zero count as none. -/
def sharedTime (totals : Totals) : Int := wrap (totals.map fun t => max t.2.exclusiveTime 0).sum

/-- A function's share in percent. -/
def share (exclusive total : Int) : Float :=
  if 0 < total then Float.ofInt (max exclusive 0) / Float.ofInt total * 100.0 else 0.0

/-- The functions with a completed call, in the order of the ranking. -/
def ranked (totals : Totals) : Totals :=
  (totals.filter fun t => 0 < t.2.timesCalled).mergeSort ranksBefore

/-- The hotspots of a call tree. -/
def ofTree (t : CallTree) : List Hotspot :=
  let totals := t.totals
  let total := sharedTime totals
  (ranked totals).map fun (address, s) => ⟨address, none, s, share s.exclusiveTime total⟩

end Hotspot

end CallProfiler.Profile
