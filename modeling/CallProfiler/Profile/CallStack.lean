import CallProfiler.Profile.CallTree
import CallProfiler.Profile.Record

/-!
# Rebuilding calls from events

The events of one thread are replayed on a stack of open calls.  When a call ends, its time is
accounted in the call tree: what was observed, less the overhead of the calls below it for the
inclusive time, less their observed time for the exclusive time.  Calls stay open from one batch of
events to the next, even if the tree is another one by then.
-/

namespace CallProfiler.Profile

/-- An open call. -/
structure Frame where
  callee : UInt64
  entered : UInt64
  /-- The number of its node. -/
  node : Nat
  /-- How many open calls below it have the same node, as far as that is told apart. -/
  level : Nat
  /-- Time observed in the calls it made, with their overhead. -/
  calleesTime : Int
  /-- Overhead of all calls made below it. -/
  calleesOverhead : Int
  deriving DecidableEq

/-- The open calls of a thread, innermost first. -/
structure CallStack where
  overhead : Overhead
  frames : List Frame
  deriving DecidableEq

/-- The node of a call made on top of open calls.  A function that calls itself gets one nested
node, in which all deeper direct recursion accumulates. -/
def childNode (t : CallTree) (frames : List Frame) (callee : UInt64) : Nat × CallTree :=
  match frames with
  | [] => t.entry none callee
  | [parent] => t.entry (some parent.node) callee
  | parent :: grand :: _ =>
    if parent.callee = callee ∧ grand.callee = callee then (parent.node, t)
    else t.entry (some parent.node) callee

/-- Looks the nodes of open calls up again, the outermost first. -/
def restoreFrames (t : CallTree) : List Frame → List Frame × CallTree
  | [] => ([], t)
  | f :: outer =>
    let (outer, t) := restoreFrames t outer
    let (node, t) := childNode t outer f.callee
    ({ f with node } :: outer, t)

/-- The greatest recursion level that is told apart. -/
def deepestLevel : Nat := 2 ^ 32 - 1

namespace CallStack

/-- No call is open. -/
def empty (overhead : Overhead) : CallStack := ⟨overhead, []⟩

/-- The number of open calls. -/
def depth (s : CallStack) : Nat := s.frames.length

/-- A call is made. -/
def push (s : CallStack) (t : CallTree) (e : Event) : CallStack × CallTree :=
  let (node, t) := childNode t s.frames e.callee
  let level := min (s.frames.filter (·.node = node)).length deepestLevel
  ({ s with frames := ⟨e.callee, e.timestamp, node, level, 0, 0⟩ :: s.frames }, t)

/-- Charges a caller with a completed call. -/
def charge (o : Overhead) (observed : Int) (callee : Frame) (caller : Frame) : Frame :=
  { caller with
    calleesTime := wrap (caller.calleesTime + wrap (observed + o.total))
    calleesOverhead := wrap (caller.calleesOverhead + wrap (o.total + callee.calleesOverhead)) }

/-- The innermost call ends; with none open nothing happens. -/
def pop (s : CallStack) (t : CallTree) (e : Event) : CallStack × CallTree :=
  match s.frames with
  | [] => (s, t)
  | f :: outer =>
    let observed := wrap (elapsed f.entered e.timestamp - s.overhead.inner)
    let inclusive := wrap (observed - f.calleesOverhead)
    let exclusive := wrap (observed - f.calleesTime)
    let t := t.modifyStatistics f.node (·.addCall f.level inclusive exclusive)
    match outer with
    | [] => ({ s with frames := [] }, t)
    | caller :: rest => ({ s with frames := charge s.overhead observed f caller :: rest }, t)

/-- Replays one event. -/
def step (s : CallStack) (t : CallTree) (e : Event) : CallStack × CallTree :=
  if e.isExit then s.pop t e else s.push t e

/-- Replays events one after the other. -/
def steps (s : CallStack) (t : CallTree) : List Event → CallStack × CallTree
  | [] => (s, t)
  | e :: rest =>
    let (s, t) := s.step t e
    steps s t rest

/-- Replays a batch of events onto a tree, which may be another one than last time. -/
def update (s : CallStack) (t : CallTree) (events : List Event) : CallStack × CallTree :=
  let (frames, t) := restoreFrames t s.frames
  steps { s with frames } t events

end CallStack

end CallProfiler.Profile
