import CallProfiler.Profile.Record

/-!
# Calibration

The overhead of recording is found by calling a function that does nothing: the part inside is the
time between its two events, the part around it what the caller sees beyond that.  Least values over
all calls are taken, so that a call that was interrupted does not count.
-/

namespace CallProfiler.Recording

open Profile (Overhead)

/-- Calls that are measured unless another number is chosen. -/
def standardIterations : Nat := 10000

/-- The greatest number of ticks. -/
def mostTicks : Int := 2 ^ 63 - 1

/-- The ticks from one reading of the clock to a later one; beyond 63 bits they count as the greatest
number. -/
def ticksBetween (start finish : UInt64) : Int := min (finish - start).toNat mostTicks

/-- A measured call: the readings of the caller before and after it, and the two events. -/
structure Probe where
  before : UInt64
  entered : UInt64
  left : UInt64
  after : UInt64
  deriving DecidableEq

namespace Probe

def inner (p : Probe) : Int := ticksBetween p.entered p.left

def outer (p : Probe) : Int := ticksBetween p.before p.after - p.inner

end Probe

/-- The overhead that probes show; the part around a call is never below zero.  No probes show
none. -/
def overheadOf (probes : List Probe) : Overhead :=
  let inner := (probes.map Probe.inner).foldl min mostTicks
  if inner = mostTicks then .zero
  else ⟨inner, max ((probes.map Probe.outer).foldl min mostTicks) 0⟩

end CallProfiler.Recording
