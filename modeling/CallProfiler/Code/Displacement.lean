import CallProfiler.Bytes.Number
import CallProfiler.Code.Fault

/-!
# Displacements

Branches hold the signed distance from the address behind them to their target.  A distance is
taken between addresses read as signed 64-bit numbers, and fits if 32 bits hold it.
-/

namespace CallProfiler.Code

open Bytes

/-- The signed distance from one address to another. -/
def distance (origin target : Nat) : Int :=
  Int.bmod target (2 ^ 64) - Int.bmod origin (2 ^ 64)

/-- The four bytes of the displacement from `origin` to `target`, if it fits. -/
def displacement? (origin target : Nat) : Option (List UInt8) :=
  let d := distance origin target
  if -2 ^ 31 ≤ d ∧ d < 2 ^ 31 then some (littleEndianBytes 4 (d % 2 ^ 32).toNat) else none

/-- The four bytes of the displacement from `origin` to `target`; a distance that does not fit is a
fault. -/
def displacement (origin target : Nat) : Except Fault (List UInt8) :=
  (displacement? origin target).elim (.error (.outOfRange origin target)) .ok

end CallProfiler.Code
