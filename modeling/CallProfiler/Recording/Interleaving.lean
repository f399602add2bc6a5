import CallProfiler.Recording.Collector

/-!
# One step at a time

Threads record and end while drains go on, called directly or by pollers.  A step is what one of them
does under one lock, and steps come in any order: a thread may append or end between any two steps of
a drain.  Two locks are held over several steps: only one drain goes on at a time, and while it
forgets threads no other thread becomes known.  A step that cannot be taken changes nothing.

`Collector.drain` takes the steps of a drain without interruption.
-/

namespace CallProfiler.Recording

open Profile (Event)

/-- How far a drain has come.  It visits the threads that are known when it starts, one after the
other; those listed are still waiting. -/
inductive Stage where
  | starting
  | swapping (waiting : List Nat)
  /-- The buffers of a thread are swapped. -/
  | handing (thread : Nat) (waiting : List Nat)
  /-- What was swapped out is handed over. -/
  | clearing (thread : Nat) (waiting : List Nat)
  /-- All are visited; threads that ended are forgotten, if they have nothing left. -/
  | forgetting (waiting : List Nat)
  deriving DecidableEq

/-- Who drains. -/
inductive Drainer where
  /-- A caller whose acceptor fills a sink. -/
  | direct (sink : Nat)
  | poller (number : Nat)
  deriving DecidableEq

/-- What the worker of a poller does. -/
inductive Place where
  /-- It waits for the next tick or for the stop. -/
  | waiting
  | draining
  /-- It has seen the stop and drains once more. -/
  | drainingLast
  | finished
  deriving DecidableEq

structure Poller where
  sink : Nat
  stopRequested : Bool
  place : Place
  deriving DecidableEq

/-- A batch of events handed over. -/
structure Delivery where
  sink : Nat
  thread : Nat
  events : List Event
  deriving DecidableEq

/-- A collector in use. -/
structure Interleaving where
  collector : Collector
  /-- The threads that ended. -/
  ended : List Nat
  /-- The drain that goes on. -/
  drain : Option (Drainer × Stage)
  pollers : Nat → Poller
  /-- What was handed over, in order. -/
  deliveries : List Delivery
  /-- What each thread has appended, in order. -/
  appended : Nat → List Event

/-- A step of a thread, of the drain that goes on, or of a poller. -/
inductive Turn where
  | track (thread : Nat) (event : Event)
  | enter (thread : Nat) (slot returnAddress timestamp callee : UInt64)
  | exit (thread : Nat) (slot timestamp : UInt64)
  /-- A thread in the middle of a call appends an event. -/
  | append (thread : Nat)
  /-- A thread ends. -/
  | leave (thread : Nat)
  | startDrain (drainer : Drainer)
  | goOn
  | tick (poller : Nat)
  | requestStop (poller : Nat)
  /-- The worker of a poller sees the stop. -/
  | seeStop (poller : Nat)
  deriving DecidableEq

namespace Interleaving

/-- Nothing has happened; the workers of all pollers wait. -/
def start (limit : Nat) (sinks : Nat → Nat) : Interleaving where
  collector := .empty limit
  ended := []
  drain := none
  pollers := fun k => ⟨sinks k, false, .waiting⟩
  deliveries := []
  appended := fun _ => []

/-- No thread can become known. -/
def isLocked (s : Interleaving) : Bool :=
  match s.drain with
  | some (_, .forgetting _) => true
  | _ => false

/-- A thread can start a call: it has not ended and is not in the middle of another one. -/
def mayCall (s : Interleaving) (thread : Nat) : Bool :=
  thread ∉ s.ended &&
    match s.collector.recorder? thread with
    | some r => r.pending = []
    | none => !s.isLocked

def setPoller (s : Interleaving) (k : Nat) (p : Poller) : Interleaving :=
  { s with pollers := fun i => if i = k then p else s.pollers i }

/-- The sink that a drain fills. -/
def sinkOf (s : Interleaving) : Drainer → Nat
  | .direct sink => sink
  | .poller k => (s.pollers k).sink

/-- A drainer can start a drain as soon as none goes on. -/
def mayDrain (s : Interleaving) : Drainer → Bool
  | .direct _ => true
  | .poller k => (s.pollers k).place = .draining || (s.pollers k).place = .drainingLast

/-- Hands over what was swapped out, unless that is nothing. -/
def deliver (s : Interleaving) (d : Drainer) (thread : Nat) : List Delivery :=
  if s.collector.swappedOut thread = [] then s.deliveries
  else s.deliveries ++ [⟨s.sinkOf d, thread, s.collector.swappedOut thread⟩]

/-- The drain is over; a poller waits again, or is finished if it was the last one. -/
def finishDrain (s : Interleaving) (d : Drainer) : Interleaving :=
  let s := { s with drain := none }
  match d with
  | .direct _ => s
  | .poller k =>
    let p := s.pollers k
    s.setPoller k { p with place := if p.place = .drainingLast then .finished else .waiting }

/-- The next step of a drain. -/
def stepDrain (s : Interleaving) (d : Drainer) : Stage → Interleaving
  | .starting => { s with drain := some (d, .swapping s.collector.threads) }
  | .swapping [] => { s with drain := some (d, .forgetting s.collector.threads) }
  | .swapping (t :: rest) =>
    { s with collector := s.collector.swap t, drain := some (d, .handing t rest) }
  | .handing t rest => { s with deliveries := s.deliver d t, drain := some (d, .clearing t rest) }
  | .clearing t rest =>
    { s with collector := s.collector.clear t, drain := some (d, .swapping rest) }
  | .forgetting [] => s.finishDrain d
  | .forgetting (t :: rest) =>
    { s with collector := s.collector.forget t, drain := some (d, .forgetting rest) }

/-- One step. -/
def step (s : Interleaving) : Turn → Interleaving
  | .track t e => if s.mayCall t then { s with collector := s.collector.track t e } else s
  | .enter t slot returnAddress timestamp callee =>
    if s.mayCall t then
      { s with collector := s.collector.enter t slot returnAddress timestamp callee }
    else s
  | .exit t slot timestamp =>
    if s.mayCall t then { s with collector := (s.collector.exit t slot timestamp).2 } else s
  | .append t =>
    match s.collector.next? t with
    | none => s
    | some e =>
      { s with
        collector := s.collector.advance t
        appended := fun u => if u = t then s.appended u ++ [e] else s.appended u }
  | .leave t =>
    if (s.collector.recorder? t).all (·.pending = []) then
      { s with collector := s.collector.leave t, ended := t :: s.ended }
    else s
  | .startDrain d =>
    if s.drain = none ∧ s.mayDrain d then { s with drain := some (d, .starting) } else s
  | .goOn =>
    match s.drain with
    | none => s
    | some (d, stage) => s.stepDrain d stage
  | .tick k =>
    let p := s.pollers k
    if p.place = .waiting then s.setPoller k { p with place := .draining } else s
  | .requestStop k =>
    let p := s.pollers k
    s.setPoller k { p with stopRequested := true }
  | .seeStop k =>
    let p := s.pollers k
    if p.place = .waiting ∧ p.stopRequested then s.setPoller k { p with place := .drainingLast }
    else s

/-- Steps one after the other. -/
def run (s : Interleaving) (turns : List Turn) : Interleaving := turns.foldl step s

/-! ## What can be said about a moment -/

/-- All that was handed over of a thread, in order. -/
def handedOver (s : Interleaving) (thread : Nat) : List Event :=
  (s.deliveries.filter (·.thread = thread)).flatMap (·.events)

/-- What a sink was handed of a thread, in order. -/
def received (s : Interleaving) (sink thread : Nat) : List Event :=
  (s.deliveries.filter fun d => d.sink = sink && d.thread = thread).flatMap (·.events)

/-- What a drain has swapped out of a thread's buffer and not handed over yet. -/
def inHand (s : Interleaving) (thread : Nat) : List Event :=
  match s.drain with
  | some (_, .handing t _) => if t = thread then s.collector.swappedOut thread else []
  | _ => []

/-- What a thread has appended and no one was handed. -/
def undrained (s : Interleaving) (thread : Nat) : List Event :=
  s.inHand thread ++ s.collector.buffered thread

/-- The call that stops a poller returns. -/
def hasStopped (s : Interleaving) (k : Nat) : Prop :=
  (s.pollers k).stopRequested = true ∧ (s.pollers k).place = .finished

end Interleaving

end CallProfiler.Recording
