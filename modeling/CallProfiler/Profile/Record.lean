import CallProfiler.Profile.Ticks

/-!
# Recorded events

A thread records when it enters a function, naming the function by its address, and when it leaves
one.
-/

namespace CallProfiler.Profile

/-- An event of one thread: a function is entered, or left if `callee` is zero. -/
structure Event where
  timestamp : UInt64
  callee : UInt64
  deriving DecidableEq

namespace Event

/-- The event that the innermost open call is left. -/
def exit (timestamp : UInt64) : Event := ⟨timestamp, 0⟩

def isExit (e : Event) : Bool := e.callee = 0

end Event

/-- Ticks between two timestamps, read as a signed number. -/
def elapsed (start finish : UInt64) : Int := wrap (finish.toNat - start.toNat)

/-- Ticks that recording itself takes: inside a recorded call, and around it. -/
structure Overhead where
  inner : Int
  outer : Int
  deriving DecidableEq

namespace Overhead

def zero : Overhead := ⟨0, 0⟩

/-- Ticks that a recorded call adds to its caller. -/
def total (o : Overhead) : Int := wrap (o.inner + o.outer)

def text (o : Overhead) : String := s!"inner={o.inner} outer={o.outer}"

end Overhead

/-- How a thread is named in messages. -/
def threadName (id : UInt64) : String := s!"TID:{id.toNat}"

end CallProfiler.Profile
