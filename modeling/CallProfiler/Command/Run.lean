import CallProfiler.Command.Console
import CallProfiler.Command.Invocation
import CallProfiler.Image.Format
import CallProfiler.Report.Export
import CallProfiler.Report.Table
import CallProfiler.Symbol.Binary

/-!
# Running commands

Each command prints what it is about, then its results; only results are printed if quiet is asked
for.  A command stops at the first step that fails, and what was printed before stays.
-/

namespace CallProfiler.Command

open Profile

/-- Why a command stopped. -/
inductive Failure where
  | traceNotLoaded (path : String) (fault : Trace.Fault)
  | binaryNotLoaded (fault : Symbol.LoadFault)
  | reportNotCreated (fault : SystemFault)
  | reportNotWritten (fault : SystemFault)
  | traceNotWritten (path : String) (fault : Trace.Fault)
  /-- The functions of the demonstration could not be patched. -/
  | notPatched
  deriving DecidableEq

def Failure.message : Failure → String
  | traceNotLoaded path fault => s!"Failed to load trace {path}: {fault.message}"
  | binaryNotLoaded fault => s!"Failed to create symbolizer: {fault.message}"
  | reportNotCreated fault => s!"Failed to create statistics output file: {fault.message}"
  | reportNotWritten fault => s!"Failed to export statistics: {fault.message}"
  | traceNotWritten path fault => s!"Failed to write trace {path}: {fault.message}"
  | notPatched => "Failed to instrument the demo functions"

variable {m : Type → Type} [Monad m]

/-- What may stop with a failure. -/
abbrev Job (m : Type → Type) := ExceptT Failure m

/-- Prints a line. -/
def printLine (c : Console m) (line : String) : Job m Unit := c.print (line ++ "\n")

/-- Prints a line unless quiet is asked for. -/
def tell (c : Console m) (quiet : Bool) (line : String) : Job m Unit := do
  unless quiet do printLine c line

/-- The overhead that a number of calls shows; at least one is made. -/
def measure (c : Console m) (calls : Nat) : Job m Overhead :=
  return Recording.overheadOf (← c.probes (max calls 1))

/-- Prints the table of the first `top` functions. -/
def printReport (c : Console m) (quiet : Bool) (names : Names) (top : Nat) (a : Analysis) :
    Job m Unit := do
  tell c quiet s!"overhead: {a.overhead.text}"
  c.print (Report.table ((Hotspot.ofTree a.merged).map (Hotspot.resolve names)) top)

/-- Writes the report to a file, if one is named. -/
def saveReport (c : Console m) (quiet : Bool) (names : Names) (a : Analysis) (path : Option String) :
    Job m Unit := do
  match path with
  | none => return
  | some path =>
    match ← c.writeFile path (Report.exportText names a) with
    | .error (.notCreated fault) => throw (.reportNotCreated fault)
    | .error (.notWritten fault) => throw (.reportNotWritten fault)
    | .ok () => tell c quiet s!"saved: {path}"

def calibrate (c : Console m) (quiet : Bool) (o : CalibrateOptions) : Job m Unit := do
  let overhead ← measure c o.iterations
  if o.json then printLine c (String.ofList ((Overhead.form.write overhead).print .compact))
  else
    printLine c s!"inner: {overhead.inner}"
    printLine c s!"outer: {overhead.outer}"
    unless quiet do
      let ticks ← c.ticksPerSecond
      printLine c s!"ticks/s: {ticks}"

/-- The names that a binary gives; no names without one. -/
def loadNames (c : Console m) (base : Nat) (binary : Option String) : Job m Names := do
  match binary with
  | none => return fun _ => none
  | some path =>
    match ← c.readFile path with
    | .error fault => throw (.binaryNotLoaded (.unreadable path fault))
    | .ok file =>
      match Symbol.Binary.ofFile file with
      | .error fault => throw (.binaryNotLoaded fault)
      | .ok b => return b.names base

def analyze (c : Console m) (quiet : Bool) (o : AnalyzeOptions) : Job m Unit := do
  match ← c.loadTrace o.trace with
  | .error fault => throw (.traceNotLoaded o.trace fault)
  | .ok trace =>
    tell c quiet s!"trace: {o.trace}"
    tell c quiet s!"threads: {trace.threads.length}, records: {trace.eventCount}"
    let names ← loadNames c o.loadBase o.binary
    let analysis := trace.replay (.empty o.overhead)
    printReport c quiet names o.top analysis
    saveReport c quiet names analysis o.exportPath

/-- A patch of the demonstration. -/
def patchLine (p : Image.PatchState) : String :=
  s!"patch #{p.id} rva {Text.hex p.offset}: {p.status.word}"

/-- Writes the trace to a file, if one is named. -/
def saveRecord (c : Console m) (quiet : Bool) (trace : Option Trace) (path : Option String) :
    Job m Unit := do
  match path, trace with
  | some path, some trace =>
    match ← c.saveTrace path trace with
    | .error fault => throw (.traceNotWritten path fault)
    | .ok () => tell c quiet s!"recorded: {path}"
  | _, _ => return

def demo (c : Console m) (quiet : Bool) (o : DemoOptions) : Job m Unit := do
  let overhead ← if o.calibrate then measure c Recording.standardIterations else pure .zero
  match Demo.run ⟨o.threads, o.calls, o.traceLimit, overhead, o.recordPath.isSome⟩ with
  | none => throw .notPatched
  | some outcome =>
    outcome.patches.forM fun p => tell c quiet (patchLine p)
    let top := (Hotspot.ofTree outcome.analysis.merged).length
    printReport c quiet Demo.names top outcome.analysis
    saveRecord c quiet outcome.trace o.recordPath
    saveReport c quiet Demo.names outcome.analysis o.exportPath

/-- Runs a command. -/
def Invocation.run (c : Console m) (i : Invocation) : m (Except Failure Unit) :=
  match i.request with
  | .calibrate options => (calibrate c i.quiet options).run
  | .analyze options => (analyze c i.quiet options).run
  | .demo options => (demo c i.quiet options).run

/-- How a command line ends. -/
inductive Ending where
  | finished
  | failed (failure : Failure)
  | refused (refusal : Refusal)
  deriving DecidableEq

/-- What the caller is told of an ending. -/
def Ending.code : Ending → Nat
  | finished => 0
  | failed _ => 1
  | refused .help => 0
  | refused _ => 2

/-- Reads a command line and runs its command. -/
def run (c : Console m) (args : List String) : m Ending :=
  match Invocation.read args with
  | .error refusal => return .refused refusal
  | .ok i => do
    match ← i.run c with
    | .error failure => return .failed failure
    | .ok () => return .finished

end CallProfiler.Command
