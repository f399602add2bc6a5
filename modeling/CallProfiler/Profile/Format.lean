import CallProfiler.Json.Form
import CallProfiler.Profile.Record
import CallProfiler.Profile.Statistics

/-!
# How recorded values are written

Events, statistics and overheads as JSON records, numbers of threads as plain numbers.
-/

namespace CallProfiler.Profile

open Json

def Event.form : Form Event :=
  (Form.record (.field "timestamp" .uint64 (.field "callee" .uint64 .done))).map
    (fun (timestamp, callee, _) => ⟨timestamp, callee⟩) (fun e => (e.timestamp, e.callee, ()))

def Statistics.form : Form Statistics :=
  (Form.record (.field "times_called" (.natural 64) (.field "max_reentrance" (.natural 32)
    (.field "inclusive_time" .int64 (.field "exclusive_time" .int64
      (.field "max_call_time" .int64 .done)))))).map
    (fun (calls, reentrance, inclusive, exclusive, longest, _) =>
      ⟨calls, reentrance, inclusive, exclusive, longest⟩)
    (fun s => (s.timesCalled, s.maxReentrance, s.inclusiveTime, s.exclusiveTime, s.maxCallTime, ()))

def Overhead.form : Form Overhead :=
  (Form.record (.field "inner" .int64 (.field "outer" .int64 .done))).map
    (fun (inner, outer, _) => ⟨inner, outer⟩) (fun o => (o.inner, o.outer, ()))

end CallProfiler.Profile
