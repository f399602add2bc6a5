import CallProfiler.Json.Printer
import CallProfiler.Profile.Analysis
import CallProfiler.Profile.Format
import CallProfiler.Profile.Hotspot
import CallProfiler.Text.Sink

/-!
# The report as a document

The report holds the overhead, the call trees of all threads and the hotspots of all threads
together.  Addresses are written in hexadecimal; names are left out where they are not known, and
callees where there are none.
-/

namespace CallProfiler.Report

open Profile

/-- The fields that tell which function is meant. -/
def functionFields (names : Names) (address : UInt64) : List (String × Json) :=
  ("address", .text (addressText address)) ::
    match names address with
    | some name => [("name", .text name)]
    | none => []

mutual

/-- A node with its callees. -/
def callDocument (names : Names) : CallBranch → Json
  | .node callee statistics callees =>
    .record (functionFields names callee ++ [("statistics", Statistics.form.write statistics)] ++
      match callDocuments names callees with
      | [] => []
      | documents => [("callees", .list documents)])

/-- Several nodes with their callees. -/
def callDocuments (names : Names) : List CallBranch → List Json
  | [] => []
  | b :: rest => callDocument names b :: callDocuments names rest

end

def threadDocument (names : Names) (thread : UInt64) (tree : CallTree) : Json :=
  .record [("thread_id", .integer thread.toNat), ("calls", .list (callDocuments names tree.branches))]

def hotspotDocument (names : Names) (h : Hotspot) : Json :=
  .record (functionFields names h.address ++
    [("statistics", Statistics.form.write h.statistics), ("percentage", .decimal h.percentage)])

/-- The report on an analysis. -/
def document (names : Names) (a : Analysis) : Json :=
  .record [("overhead", Overhead.form.write a.overhead),
    ("threads", .list (a.threads.map fun (thread, p) => threadDocument names thread p.tree)),
    ("hotspots", .list ((Hotspot.ofTree a.merged).map (hotspotDocument names)))]

/-- The text of the report, which ends with a new line. -/
def exportText (names : Names) (a : Analysis) : List Char := (document names a).print .indented ++ ['\n']

/-- Why a report was not written: the sink failed within the document, or behind it. -/
inductive ExportFault where
  | inDocument (fault : Text.Sink.Fault)
  | behindDocument (fault : Text.Sink.Fault)
  deriving DecidableEq

def ExportFault.message : ExportFault → String
  | inDocument fault => fault.message
  | behindDocument fault => fault.message

/-- Writes the report to a sink and flushes it. -/
def exportTo (names : Names) (a : Analysis) (sink : Text.Sink) : Except ExportFault Unit × Text.Sink :=
  match sink.putAll ((document names a).pieces .indented 0) with
  | (false, sink) => (.error (.inDocument .full), sink)
  | (true, sink) =>
    match sink.put ['\n'] with
    | (false, sink) => (.error (.behindDocument .full), sink)
    | (true, sink) =>
      (if sink.refusesFlush then .error (.behindDocument .flushRefused) else .ok (), sink)

end CallProfiler.Report
