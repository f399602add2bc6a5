import CallProfiler.Profile.Record

/-!
# Return stacks

A thread remembers its open calls by the stack slots that held their return addresses.  A call that
is entered at the slot of the innermost open call replaces it; leaving at a slot closes all calls that
lie at or below it, and at least one.
-/

namespace CallProfiler.Recording

open Profile (Event)

/-- An open call. -/
structure OpenCall where
  /-- The stack slot that held its return address. -/
  slot : UInt64
  returnAddress : UInt64
  deriving DecidableEq

/-- The open calls of a thread, the innermost first. -/
abbrev ReturnStack := List OpenCall

namespace ReturnStack

/-- The slot of the innermost open call, or the highest one if no call is open. -/
def topSlot : ReturnStack → UInt64
  | [] => UInt64.ofNat (2 ^ 64 - 1)
  | c :: _ => c.slot

/-- A call is entered; gives the events to record. -/
def enter (s : ReturnStack) (slot returnAddress timestamp callee : UInt64) : ReturnStack × List Event :=
  if s.topSlot = slot then (s, [.exit timestamp, ⟨timestamp, callee⟩])
  else (⟨slot, returnAddress⟩ :: s, [⟨timestamp, callee⟩])

/-- Calls are left; gives the events to record and the return address of the outermost of them, zero
if no call was open. -/
def exit (slot timestamp : UInt64) : ReturnStack → ReturnStack × List Event × UInt64
  | [] => ([], [], 0)
  | c :: rest =>
    if rest = [] ∨ slot < topSlot rest then (rest, [.exit timestamp], c.returnAddress)
    else
      let (s, events, returnAddress) := exit slot timestamp rest
      (s, .exit timestamp :: events, returnAddress)

end ReturnStack

end CallProfiler.Recording
