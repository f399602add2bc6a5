import CallProfiler.Profile.CallStack

/-!
# Analysis of all threads

Every thread has its own call stack and call tree; the trees can be cleared between reports while
calls stay open, and merged for a report on all threads.
-/

namespace CallProfiler.Profile

/-- The calls of one thread. -/
structure ThreadProfile where
  stack : CallStack
  tree : CallTree
  deriving DecidableEq

/-- The threads seen so far, in ascending order of their numbers. -/
structure Analysis where
  overhead : Overhead
  threads : List (UInt64 × ThreadProfile)
  /-- How many events were accepted in all. -/
  accepted : Nat
  deriving DecidableEq

namespace Analysis

def empty (overhead : Overhead) : Analysis := ⟨overhead, [], 0⟩

/-- Replaces the profile of a thread by a function of it, starting from a new one if there is none. -/
def updateThread (fresh : ThreadProfile) (thread : UInt64) (f : ThreadProfile → ThreadProfile) :
    List (UInt64 × ThreadProfile) → List (UInt64 × ThreadProfile)
  | [] => [(thread, f fresh)]
  | (id, p) :: rest =>
    if thread < id then (thread, f fresh) :: (id, p) :: rest
    else if id = thread then (id, f p) :: rest
    else (id, p) :: updateThread fresh thread f rest

/-- Replays a batch of events of one thread. -/
def accept (a : Analysis) (thread : UInt64) (events : List Event) : Analysis :=
  { a with
    threads := updateThread ⟨.empty a.overhead, .empty⟩ thread
      (fun p =>
        let (stack, tree) := p.stack.update p.tree events
        ⟨stack, tree⟩) a.threads
    accepted := (a.accepted + events.length) % 2 ^ 64 }

/-- Drops all statistics and keeps the open calls. -/
def clear (a : Analysis) : Analysis :=
  { a with threads := a.threads.map fun (id, p) => (id, { p with tree := .empty }) }

/-- Some thread has statistics. -/
def hasData (a : Analysis) : Bool := a.threads.any fun (_, p) => p.tree.size ≠ 0

def threadIds (a : Analysis) : List UInt64 := a.threads.map (·.1)

/-- The call tree of a thread. -/
def tree? (a : Analysis) (thread : UInt64) : Option CallTree :=
  (a.threads.lookup thread).map (·.tree)

/-- The call trees of all threads in one. -/
def merged (a : Analysis) : CallTree := a.threads.foldl (fun t (_, p) => t.merge p.tree) .empty

end Analysis

end CallProfiler.Profile
