import CallProfiler.Json.Printer
import CallProfiler.Profile.Analysis
import CallProfiler.Profile.Format
import CallProfiler.SystemFault
import CallProfiler.Text.Blank
import CallProfiler.Text.Sink

/-!
# Traces

A trace is the sequence of the batches of events that were drained from all threads, in that order,
so that replaying it gives what was analysed live.  Traces are stored as JSON.
-/

namespace CallProfiler.Profile

/-- A batch of events of one thread. -/
structure Chunk where
  thread : UInt64
  events : List Event
  deriving DecidableEq

def Chunk.form : Json.Form Chunk :=
  (Json.Form.record (.field "thread_id" .uint64 (.field "records" (.list Event.form) .done))).map
    (fun (thread, events, _) => ⟨thread, events⟩) (fun c => (c.thread, c.events, ()))

/-- Batches in the order in which they were drained. -/
structure Trace where
  chunks : List Chunk
  deriving DecidableEq

namespace Trace

/-- Why a trace could not be read or written. -/
inductive Fault where
  | invalid (reason : String)
  | system (fault : SystemFault)
  /-- The bytes encode no text. -/
  | notText
  | json (fault : Json.Fault)
  | unwritable (fault : Text.Sink.Fault)
  deriving DecidableEq

def Fault.message : Fault → String
  | invalid reason => s!"Invalid trace data: {reason}"
  | system fault => fault.message
  | notText => "stream did not contain valid UTF-8"
  | json fault => s!"not a trace document ({fault.category})"
  | unwritable fault => fault.message

/-- A fault as a value. -/
def Fault.shown : Fault → Text.Shown
  | invalid reason => .call "InvalidTraceData" [.quoted reason]
  | system fault => .call "Io" [fault.shown]
  | notText => .call "Io" [.word "InvalidData"]
  | json fault => .call "Json" [.word fault.category]
  | unwritable fault => .call "Json" [.quoted fault.message]

def empty : Trace := ⟨[]⟩

/-- Adds a batch at the end. -/
def push (t : Trace) (thread : UInt64) (events : List Event) : Trace := ⟨t.chunks ++ [⟨thread, events⟩]⟩

def eventCount (t : Trace) : Nat := (t.chunks.map (·.events.length)).sum

/-- The threads in the order in which they first appear. -/
def threads (t : Trace) : List UInt64 :=
  t.chunks.foldl (fun seen c => if c.thread ∈ seen then seen else seen ++ [c.thread]) []

/-- Replays all batches onto an analysis. -/
def replay (t : Trace) (a : Analysis) : Analysis :=
  t.chunks.foldl (fun a c => a.accept c.thread c.events) a

def form : Json.Form Trace := (Json.Form.list Chunk.form).map Trace.mk Trace.chunks

/-- The pieces in which a trace is written. -/
def pieces (t : Trace) : List (List Char) := (form.write t).pieces .compact 0

/-- The text of a trace. -/
def print (t : Trace) : List Char := t.pieces.flatten

/-- Reads the text of a trace. -/
def parse (s : List Char) : Except Fault Trace :=
  if s.all Text.isBlank then .error (.invalid "trace is empty") else (form.parse s).mapError .json

/-- Reads the bytes of a trace. -/
def ofBytes (bytes : ByteArray) : Except Fault Trace :=
  match String.fromUTF8? bytes with
  | none => .error .notText
  | some s => parse s.toList

/-- Writes a trace to a sink. -/
def writeTo (t : Trace) (sink : Text.Sink) : Except Fault Unit × Text.Sink :=
  match sink.putAll t.pieces with
  | (true, sink) => (.ok (), sink)
  | (false, sink) => (.error (.unwritable .full), sink)

end Trace

end CallProfiler.Profile
