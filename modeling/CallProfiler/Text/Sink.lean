/-!
# Sinks with limited room

A sink takes text as bytes until its room is used up; of a piece that does not fit it takes the
front.  A sink may also refuse to be flushed.
-/

namespace CallProfiler.Text

/-- Where text is written to. -/
structure Sink where
  /-- How many bytes it still takes. -/
  room : Nat
  taken : Array UInt8
  refusesFlush : Bool
  deriving DecidableEq

namespace Sink

/-- Why writing stopped. -/
inductive Fault where
  | full
  | flushRefused
  deriving DecidableEq

def Fault.message : Fault → String
  | full => "writer is full"
  | flushRefused => "flush refused"

/-- A sink that has taken nothing yet. -/
def fresh (room : Nat) (refusesFlush : Bool) : Sink := ⟨room, #[], refusesFlush⟩

/-- Writes one piece and tells whether all of it was taken. -/
def put (s : Sink) (piece : List Char) : Bool × Sink :=
  let bytes := piece.flatMap String.utf8EncodeChar
  (bytes.length ≤ s.room,
    { s with room := s.room - bytes.length, taken := s.taken ++ (bytes.take s.room).toArray })

/-- Writes pieces until one does not fit, and tells whether all were taken. -/
def putAll : Sink → List (List Char) → Bool × Sink
  | s, [] => (true, s)
  | s, piece :: rest =>
    match s.put piece with
    | (false, s) => (false, s)
    | (true, s) => putAll s rest

end Sink

end CallProfiler.Text
