import CallProfiler.Recording.Collector

/-!
# Sessions

A session is a collector together with the sink of its drains.  Threads and drains act one at a time,
in any order; a poller drains again and again, and a last time when it is stopped.
-/

namespace CallProfiler.Recording

open Profile (Event)

/-- What a thread or the poller does next. -/
inductive Action where
  | track (thread : Nat) (event : Event)
  | enter (thread : Nat) (slot returnAddress timestamp callee : UInt64)
  | exit (thread : Nat) (slot timestamp : UInt64)
  /-- A thread appends an event that waits. -/
  | advance (thread : Nat)
  | leave (thread : Nat)
  | drain
  deriving DecidableEq

/-- A collector and what its drains have handed over. -/
structure Session (σ : Type) where
  collector : Collector
  sink : σ

namespace Session

variable {σ : Type} (accept : Nat → List Event → σ → σ)

/-- One action. -/
def step (s : Session σ) : Action → Session σ
  | .track thread e => { s with collector := s.collector.track thread e }
  | .enter thread slot returnAddress timestamp callee =>
    { s with collector := s.collector.enter thread slot returnAddress timestamp callee }
  | .exit thread slot timestamp => { s with collector := (s.collector.exit thread slot timestamp).2 }
  | .advance thread => { s with collector := s.collector.advance thread }
  | .leave thread => { s with collector := s.collector.leave thread }
  | .drain =>
    let (_, collector, sink) := s.collector.drain (fun t es s => (true, accept t es s)) s.sink
    ⟨collector, sink⟩

/-- Actions one after the other. -/
def steps (s : Session σ) (actions : List Action) : Session σ := actions.foldl (step accept) s

/-- The poller stops after a last drain. -/
def stop (s : Session σ) : Session σ := s.step accept .drain

/-- A thread appends its waiting events; a drain makes room whenever the buffer is full. -/
def flush : Nat → Nat → Session σ → Session σ
  | 0, _, s => s
  | n + 1, thread, s =>
    let s := { s with collector := s.collector.settle thread }
    if (s.collector.recorder? thread).elim true (·.pending = []) then s
    else flush n thread (s.step accept .drain)

/-- A thread acts and appends what it recorded. -/
def perform (s : Session σ) (thread : Nat) (action : Action) : Session σ :=
  let s := s.step accept action
  s.flush accept ((s.collector.recorder? thread).elim 0 (·.pending.length) + 1) thread

/-- A thread records events as they are. -/
def record (s : Session σ) (thread : Nat) (events : List Event) : Session σ :=
  events.foldl (fun s e => s.perform accept thread (.track thread e)) s

end Session

end CallProfiler.Recording
