import CallProfiler.Image.Record
import CallProfiler.Json.Form

/-!
# How states of patches are written

What queries and requests tell, as JSON records.
-/

namespace CallProfiler.Image

open Json

/-- The names of the states of a record. -/
def Status.names : List (String × Status) :=
  [("pending", .pending), ("active", .active), ("dormant", .dormant),
    ("unrecoverable_error", .unrecoverableError), ("activation_error", .activationError)]

def Status.form : Form Status := .choice names

/-- The word for a state in lists of patches. -/
def Status.word : Status → String
  | pending => "Pending"
  | active => "Active"
  | dormant => "Dormant"
  | unrecoverableError => "UnrecoverableError"
  | activationError => "ActivationError"

/-- The names of the answers to requests. -/
def Outcome.names : List (String × Outcome) :=
  [("ok", .ok), ("unchanged", .unchanged), ("activation_error", .activationError),
    ("unrecoverable_error", .unrecoverableError)]

def Outcome.form : Form Outcome := .choice names

def PatchState.form : Form PatchState :=
  (Form.record (.field "id" (.natural 32) (.field "rva" (.natural 32) (.field "size" (.natural 32)
    (.field "state" Status.form .done))))).map
    (fun (id, offset, size, status, _) => ⟨id, offset, size, status⟩)
    (fun s => (s.id, s.offset, s.size, s.status, ()))

def PatchChange.form : Form PatchChange :=
  (Form.record (.field "id" (.natural 32) (.field "rva" (.natural 32) (.field "size" (.natural 32)
    (.field "result" Outcome.form .done))))).map
    (fun (id, offset, size, outcome, _) => ⟨id, offset, size, outcome⟩)
    (fun c => (c.id, c.offset, c.size, c.outcome, ()))

end CallProfiler.Image
