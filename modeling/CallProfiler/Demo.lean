import CallProfiler.Image.Machine
import CallProfiler.Profile.Hotspot
import CallProfiler.Profile.Trace
import CallProfiler.Recording.Session

/-!
# The demonstration

A small image with two functions is mapped and both are patched; then workers call the outer one,
which calls the leaf twice, while what they record is drained into an analysis.  The machine is a
model of one: the workers run one after the other, and every reading of the clock is a tick later.
-/

namespace CallProfiler.Demo

open Profile Recording

/-- What can be chosen about a run. -/
structure Options where
  threads : Nat
  /-- Calls of the outer function by each worker. -/
  calls : Nat
  traceLimit : Nat
  overhead : Overhead
  /-- All drained batches are kept as a trace. -/
  record : Bool
  deriving DecidableEq

/-- Four workers with a thousand calls each. -/
def Options.standard : Options := ⟨4, 1000, 0, .zero, false⟩

/-! ## The image -/

def leafOffset : Nat := 0x100

def outerOffset : Nat := 0x200

/-- Loads a constant and returns. -/
def leafCode : List UInt8 := [0xB8, 0x2A, 0x00, 0x00, 0x00, 0xC3]

/-- A call of the leaf, as the bytes so far behind the start of the outer function. -/
def callLeaf (at_ : Nat) : List UInt8 :=
  0xE8 :: (Code.displacement? (outerOffset + at_ + 5) leafOffset).getD []

/-- Keeps the stack aligned and calls the leaf twice. -/
def outerCode : List UInt8 :=
  [0x48, 0x83, 0xEC, 0x08] ++ callLeaf 4 ++ callLeaf 9 ++ [0x48, 0x83, 0xC4, 0x08, 0xC3]

/-- Where the image is mapped. -/
def base : Nat := 0x10000

def leafAddress : UInt64 := UInt64.ofNat (base + leafOffset)

def outerAddress : UInt64 := UInt64.ofNat (base + outerOffset)

def names : Names := fun address =>
  if address = leafAddress then some "demo::leaf"
  else if address = outerAddress then some "demo::outer"
  else none

/-- The image in an otherwise empty space; gaps are filled with breakpoints. -/
def space : Memory.Space :=
  let (_, s) := Memory.Space.empty.map base Memory.pageSize .all
  ((s.fill ⟨base, base + Memory.pageSize⟩ 0xCC).write (base + leafOffset) leafCode).write
    (base + outerOffset) outerCode

def mapping : Image.Mapping :=
  ⟨some "<demo>", base, [⟨⟨base, base + Memory.pageSize⟩, .all⟩]⟩

/-- Both functions. -/
def targets : List Image.Target := [⟨leafOffset, leafCode.length⟩, ⟨outerOffset, outerCode.length⟩]

/-- Maps the image, patches both functions and tells the states of the patches. -/
def patchStates : Option (List Image.PatchState) :=
  let crew := Image.Machine.crew
  let machine : Image.Machine :=
    { arena := { space }, hooks := ⟨0x20000, 0x20100, 0x20200⟩, blockSize := 0x10000 }
  let (fleet, machine) := Image.Fleet.create crew "demo" false {} machine
  let (_, fleet, machine) := fleet.load crew 1 mapping machine
  let (changes, fleet, machine) := fleet.apply crew "demo" 1 targets machine
  if (changes.getD []).all (·.outcome = .ok) then fleet.query crew "demo" 1 machine else none

/-! ## The workers -/

/-- Where drained batches go. -/
structure Sink where
  analysis : Analysis
  trace : Option Trace
  deriving DecidableEq

def accept (thread : Nat) (events : List Profile.Event) (s : Sink) : Sink :=
  let id := UInt64.ofNat thread
  ⟨s.analysis.accept id events, s.trace.map fun t => t.push id events⟩

/-- What a worker does in one call of the outer function, from a reading of the clock on. -/
def callActions (thread : Nat) (clock : UInt64) : List Action :=
  let outerSlot : UInt64 := 0x7000
  let leafSlot : UInt64 := 0x6fe8
  [.enter thread outerSlot 0x30000 clock outerAddress,
    .enter thread leafSlot (outerAddress + 9) (clock + 1) leafAddress,
    .exit thread leafSlot (clock + 2),
    .enter thread leafSlot (outerAddress + 14) (clock + 3) leafAddress,
    .exit thread leafSlot (clock + 4),
    .exit thread outerSlot (clock + 5)]

/-- A worker makes its calls; the poller drains after each of them. -/
def work (thread : Nat) : Nat → UInt64 → Session Sink → UInt64 × Session Sink
  | 0, clock, s => (clock, s)
  | calls + 1, clock, s =>
    let s := (callActions thread clock).foldl (fun s a => s.perform accept thread a) s
    work thread calls (clock + 6) (s.step accept .drain)

/-- The workers one after the other, from the last number down. -/
def workAll (calls : Nat) : Nat → UInt64 → Session Sink → Session Sink
  | 0, _, s => s
  | thread + 1, clock, s =>
    let (clock, s) := work (thread + 1) calls clock s
    workAll calls thread clock (s.step accept (.leave (thread + 1)))

/-- What a run leaves behind. -/
structure Outcome where
  analysis : Analysis
  patches : List Image.PatchState
  trace : Option Trace
  deriving DecidableEq

/-- A run; there is at least one worker.  No outcome means that a function could not be patched. -/
def run (o : Options) : Option Outcome :=
  patchStates.map fun patches =>
    let sink : Sink := ⟨.empty o.overhead, if o.record then some .empty else none⟩
    let session := workAll o.calls (max o.threads 1) 0 ⟨.empty o.traceLimit, sink⟩
    let sink := (session.stop accept).sink
    ⟨sink.analysis, patches, sink.trace⟩

end CallProfiler.Demo
