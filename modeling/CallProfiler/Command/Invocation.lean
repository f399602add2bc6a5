import CallProfiler.Command.Arguments
import CallProfiler.Demo
import CallProfiler.Recording.Calibration

/-!
# The commands

What can be asked on the command line: to measure the overhead of recording, to analyse a trace, or
to run the demonstration.
-/

namespace CallProfiler.Command

structure CalibrateOptions where
  iterations : Nat
  json : Bool
  deriving DecidableEq

structure AnalyzeOptions where
  trace : String
  overhead : Profile.Overhead
  /-- Where the report goes. -/
  exportPath : Option String
  /-- The binary that gives names. -/
  binary : Option String
  /-- Where the binary was loaded. -/
  loadBase : Nat
  /-- How many functions are listed. -/
  top : Nat
  deriving DecidableEq

structure DemoOptions where
  threads : Nat
  calls : Nat
  traceLimit : Nat
  calibrate : Bool
  exportPath : Option String
  /-- Where the trace goes. -/
  recordPath : Option String
  deriving DecidableEq

/-- A command with its options. -/
inductive Request where
  | calibrate (options : CalibrateOptions)
  | analyze (options : AnalyzeOptions)
  | demo (options : DemoOptions)
  deriving DecidableEq

structure Invocation where
  request : Request
  /-- Only results are printed. -/
  quiet : Bool
  deriving DecidableEq

/-- The options that every command takes. -/
def commonOptions : List Parameter := [⟨"quiet", .flag, some 'q'⟩, ⟨"help", .help, some 'h'⟩]

def mainSignature : Signature :=
  { options := commonOptions, commands := ["calibrate", "analyze", "demo", "help"] }

def calibrateSignature : Signature :=
  { options := commonOptions ++ [⟨"iterations", .natural, none⟩, ⟨"json", .flag, none⟩] }

def analyzeSignature : Signature :=
  { options := commonOptions ++ [⟨"inner", .integer, none⟩, ⟨"outer", .integer, none⟩,
      ⟨"export", .path, none⟩, ⟨"binary", .path, none⟩, ⟨"load-base", .address, none⟩,
      ⟨"top", .natural, none⟩]
    operand := some ⟨"TRACE", .path, none⟩ }

def demoSignature : Signature :=
  { options := commonOptions ++ [⟨"threads", .natural, none⟩, ⟨"calls", .natural, none⟩,
      ⟨"trace-limit", .natural, none⟩, ⟨"calibrate", .flag, none⟩, ⟨"export", .path, none⟩,
      ⟨"record", .path, none⟩] }

/-- The options of a calibration. -/
def calibrateRequest (f : Found) : Except Refusal Request :=
  .ok (.calibrate ⟨(f.number "iterations" Recording.standardIterations).toNat, f.has "json"⟩)

/-- The options of an analysis; an address of the binary needs a binary. -/
def analyzeRequest (f : Found) : Except Refusal Request :=
  match f.path? "TRACE" with
  | none => .error .missingArgument
  | some trace =>
    if f.has "load-base" && !f.has "binary" then .error .missingArgument
    else .ok (.analyze
      { trace, overhead := ⟨f.number "inner" 0, f.number "outer" 0⟩, exportPath := f.path? "export"
        binary := f.path? "binary", loadBase := (f.number "load-base" 0).toNat
        top := (f.number "top" 20).toNat })

/-- The options of a demonstration. -/
def demoRequest (f : Found) : Except Refusal Request :=
  let standard := Demo.Options.standard
  .ok (.demo
    { threads := (f.number "threads" standard.threads).toNat
      calls := (f.number "calls" standard.calls).toNat
      traceLimit := (f.number "trace-limit" standard.traceLimit).toNat
      calibrate := f.has "calibrate", exportPath := f.path? "export", recordPath := f.path? "record" })

/-- Reads the arguments of a command. -/
def readRequest (sig : Signature) (request : Found → Except Refusal Request) (quiet : Bool)
    (args : List String) : Except Refusal Invocation := do
  let (found, _) ← sig.takeAll false {} args
  return ⟨← request found, quiet || found.has "quiet"⟩

/-- Help is given for one known command or in general. -/
def readHelp (args : List String) : Refusal :=
  match args with
  | [] => .help
  | [command] => if command ∈ mainSignature.commands then .help else .unknownCommand
  | _ => .unknownCommand

/-- Reads a command line. -/
def Invocation.read (args : List String) : Except Refusal Invocation := do
  let (found, command) ← mainSignature.takeAll false {} args
  let quiet := found.has "quiet"
  match command with
  | none => throw (if found.values = [] then .helpForNothing else .missingCommand)
  | some ("calibrate", args) => readRequest calibrateSignature calibrateRequest quiet args
  | some ("analyze", args) => readRequest analyzeSignature analyzeRequest quiet args
  | some ("demo", args) => readRequest demoSignature demoRequest quiet args
  | some (_, args) => throw (readHelp args)

end CallProfiler.Command
