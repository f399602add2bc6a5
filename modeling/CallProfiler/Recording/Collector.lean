import CallProfiler.Recording.ReturnStack
import CallProfiler.Text.Shown

/-!
# Collecting the events of threads

Every thread appends its events to a buffer of its own.  A drain swaps the two buffers of each thread
and hands the full one over, so that a thread is held up only for the swap.  With a limit, a thread
waits until its buffer has been drained; events that wait are kept in order in front of the buffer.
-/

namespace CallProfiler.Recording

open Profile (Event)

/-- The buffers of a thread. -/
structure Log where
  thread : Nat
  /-- Where the thread appends. -/
  active : List Event
  /-- What a drain hands over; empty unless a drain was abandoned. -/
  inactive : List Event
  deriving DecidableEq

/-- What a live thread keeps for itself. -/
structure Recorder where
  thread : Nat
  returns : ReturnStack
  /-- Events that are not in the buffer yet. -/
  pending : List Event
  deriving DecidableEq

/-- A collector with the threads that it knows, in the order in which they first recorded. -/
structure Collector where
  /-- How many events a buffer holds before its thread waits; zero means any number. -/
  limit : Nat
  logs : List Log
  recorders : List Recorder
  deriving DecidableEq

namespace Collector

def empty (limit : Nat) : Collector := ⟨limit, [], []⟩

/-- The number of known threads: live ones, and those that ended and have undrained events. -/
def threadCount (c : Collector) : Nat := c.logs.length

/-- The known threads, in the order in which they became known. -/
def threads (c : Collector) : List Nat := c.logs.map (·.thread)

def log? (c : Collector) (thread : Nat) : Option Log := c.logs.find? (·.thread = thread)

def recorder? (c : Collector) (thread : Nat) : Option Recorder :=
  c.recorders.find? (·.thread = thread)

/-- Makes a thread known when it records for the first time. -/
def attach (c : Collector) (thread : Nat) : Collector :=
  if (c.recorder? thread).isSome then c
  else { c with logs := c.logs ++ [⟨thread, [], []⟩], recorders := c.recorders ++ [⟨thread, [], []⟩] }

/-- Changes the buffers of a thread. -/
def modifyLog (c : Collector) (thread : Nat) (f : Log → Log) : Collector :=
  { c with logs := c.logs.map fun l => if l.thread = thread then f l else l }

/-- Changes what a thread keeps. -/
def modifyRecorder (c : Collector) (thread : Nat) (f : Recorder → Recorder) : Collector :=
  { c with recorders := c.recorders.map fun r => if r.thread = thread then f r else r }

/-- Lines up events of a thread behind those that wait. -/
def post (c : Collector) (thread : Nat) (events : List Event) : Collector :=
  (c.attach thread).modifyRecorder thread fun r => { r with pending := r.pending ++ events }

/-- A thread may append to its buffer. -/
def hasRoom (c : Collector) (log : Log) : Bool := c.limit = 0 || log.active.length < c.limit

/-- What is in the buffer of a thread. -/
def buffered (c : Collector) (thread : Nat) : List Event := (c.log? thread).elim [] (·.active)

/-- The event that a thread can append now: the first that waits, if there is one and there is room. -/
def next? (c : Collector) (thread : Nat) : Option Event :=
  match c.recorder? thread, c.log? thread with
  | some r, some log => if c.hasRoom log then r.pending.head? else none
  | _, _ => none

/-- A thread appends its first waiting event to its buffer, if it can. -/
def advance (c : Collector) (thread : Nat) : Collector :=
  match c.next? thread with
  | none => c
  | some e =>
    (c.modifyLog thread fun l => { l with active := l.active ++ [e] }).modifyRecorder thread
      fun r => { r with pending := r.pending.tail }

/-- Advances a thread so many times. -/
def advanceBy : Nat → Nat → Collector → Collector
  | 0, _, c => c
  | n + 1, thread, c => advanceBy n thread (c.advance thread)

/-- A thread appends all its waiting events, up to the limit. -/
def settle (c : Collector) (thread : Nat) : Collector :=
  advanceBy ((c.recorder? thread).elim 0 (·.pending.length)) thread c

/-- Records an event as it is. -/
def track (c : Collector) (thread : Nat) (e : Event) : Collector := c.post thread [e]

/-- Records that a call is entered. -/
def enter (c : Collector) (thread : Nat) (slot returnAddress timestamp callee : UInt64) : Collector :=
  let returns := (c.recorder? thread).elim [] (·.returns)
  let (returns, events) := ReturnStack.enter returns slot returnAddress timestamp callee
  (c.post thread events).modifyRecorder thread fun r => { r with returns }

/-- Records that calls are left and gives the return address to continue at. -/
def exit (c : Collector) (thread : Nat) (slot timestamp : UInt64) : UInt64 × Collector :=
  let returns := (c.recorder? thread).elim [] (·.returns)
  let (returns, events, returnAddress) := ReturnStack.exit slot timestamp returns
  (returnAddress, (c.post thread events).modifyRecorder thread fun r => { r with returns })

/-- A thread ends; with events waiting it cannot. -/
def leave (c : Collector) (thread : Nat) : Collector :=
  { c with recorders := c.recorders.filter fun r => r.thread ≠ thread || r.pending ≠ [] }

/-! ## Drains -/

/-- Swaps the buffers of a thread. -/
def swap (c : Collector) (thread : Nat) : Collector :=
  c.modifyLog thread fun l => { l with active := l.inactive, inactive := l.active }

/-- What was swapped out and is to be handed over. -/
def swappedOut (c : Collector) (thread : Nat) : List Event := (c.log? thread).elim [] (·.inactive)

/-- Empties the buffer that was handed over. -/
def clear (c : Collector) (thread : Nat) : Collector :=
  c.modifyLog thread fun l => { l with inactive := [] }

/-- Forgets a thread that ended and has nothing left. -/
def forget (c : Collector) (thread : Nat) : Collector :=
  { c with logs := c.logs.filter fun l =>
      l.thread ≠ thread || (c.recorder? thread).isSome || l.active ≠ [] }

variable {σ : Type}

/-- What takes a batch of events of a thread over.  The answer tells whether it came back; if it did
not, the drain is abandoned. -/
abbrev Acceptor (σ : Type) := Nat → List Event → σ → Bool × σ

/-- Hands the buffers of threads over, one after the other. -/
def drainThreads (accept : Acceptor σ) : List Nat → Collector → σ → Bool × Collector × σ
  | [], c, s => (true, c, s)
  | thread :: rest, c, s =>
    let c := c.swap thread
    let events := c.swappedOut thread
    let (ok, s) := if events = [] then (true, s) else accept thread events s
    if ok then drainThreads accept rest (c.clear thread) s else (false, c, s)

/-- Hands all buffers over and forgets the threads that ended and have nothing left. -/
def drain (accept : Acceptor σ) (c : Collector) (s : σ) : Bool × Collector × σ :=
  match drainThreads accept c.threads c s with
  | (false, c, s) => (false, c, s)
  | (true, c, s) => (true, c.threads.foldl forget c, s)

end Collector

/-- What patched code calls, shown with the text of its address. -/
def shownInterceptor (instance_ : String) : Text.Shown :=
  .record "InterceptorHandle" [("instance", .word instance_)] false

end CallProfiler.Recording
