import CallProfiler.Memory.Space
import CallProfiler.Memory.Fault

/-!
# Protection for a while

A guard stands for pages whose protection was changed; releasing it gives them the protection it
remembers, whether or not that succeeds.
-/

namespace CallProfiler.Memory

/-- Pages that get another protection when the guard is released. -/
structure Guard where
  region : Range
  restore : Protection
  deriving DecidableEq

namespace Guard

/-- Puts the pages that `region` touches under `protection` until the guard is released. -/
def take (s : Space) (region : Range) (protection restore : Protection) : Except Fault Guard × Space :=
  match s.protect region.pages protection with
  | (none, s) => (.ok ⟨region.pages, restore⟩, s)
  | (some cause, s) => (.error (.protectFailed region.pages cause), s)

/-- Gives the pages their protection back. -/
def release (g : Guard) (s : Space) : Space := (s.protect g.region g.restore).2

end Guard

end CallProfiler.Memory
