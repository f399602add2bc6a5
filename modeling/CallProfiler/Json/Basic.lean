import CallProfiler.Instances

/-!
# JSON documents

Documents as values, and why a text is refused as one.
-/

namespace CallProfiler

/-- A document. -/
inductive Json where
  | integer (n : Int)
  | decimal (x : Float)
  | text (s : String)
  | list (items : List Json)
  | record (fields : List (String × Json))

namespace Json

/-- Why a text is refused. -/
inductive Fault where
  /-- It is no document. -/
  | malformed
  /-- It may be a document, but not of the kind that is read. -/
  | mismatched
  /-- It ends too early. -/
  | truncated
  deriving DecidableEq

/-- The class of a fault as it is reported. -/
def Fault.category : Fault → String
  | malformed => "syntax"
  | mismatched => "data"
  | truncated => "eof"

/-- Blanks between the parts of a document. -/
def isBlank (c : Char) : Bool := c = ' ' || c = '\n' || c = '\t' || c = '\r'

def skipBlanks (s : List Char) : List Char := s.dropWhile isBlank

/-- A reader takes what it reads from the front of a text and gives the rest.  Faults are found from
left to right: the first one decides. -/
abbrev Reader (α : Type) := List Char → Except Fault (α × List Char)

/-- Skips the rest of a fixed word. -/
def skipWord : List Char → List Char → Except Fault (List Char)
  | [], s => .ok s
  | _ :: _, [] => .error .truncated
  | w :: word, c :: s => if c = w then skipWord word s else .error .malformed

/-- Skips a mark behind blanks. -/
def skipMark (mark : Char) (s : List Char) : Except Fault (List Char) :=
  match skipBlanks s with
  | [] => .error .truncated
  | c :: rest => if c = mark then .ok rest else .error .malformed

end Json

end CallProfiler
