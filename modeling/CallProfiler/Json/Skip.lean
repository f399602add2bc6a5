import CallProfiler.Json.Number
import CallProfiler.Json.Quoted

/-!
# Skipping values

A value that nobody asked for is skipped; its form is checked as it goes by.  Values nest without
limit, so the open brackets are kept on a list.
-/

namespace CallProfiler.Json

/-- An open bracket. -/
inductive Bracket where
  | list
  | record
  deriving DecidableEq

def Bracket.close : Bracket → Char
  | list => ']'
  | record => '\x7d'

/-- What is expected next inside open brackets. -/
inductive Expectation where
  | value
  | separator
  deriving DecidableEq

/-- Skips the name of a field and its colon. -/
def skipName (s : List Char) : Except Fault (List Char) :=
  match skipBlanks s with
  | [] => .error .truncated
  | '"' :: rest =>
    match skipText rest with
    | .error e => .error e
    | .ok rest => skipMark ':' rest
  | _ => .error .malformed

/-- Skips a value that is neither a list nor a record. -/
def skipScalar : List Char → Except Fault (List Char)
  | [] => .error .truncated
  | c :: rest =>
    if c = '"' then skipText rest
    else if c = 'n' then skipWord ['u', 'l', 'l'] rest
    else if c = 't' then skipWord ['r', 'u', 'e'] rest
    else if c = 'f' then skipWord ['a', 'l', 's', 'e'] rest
    else if startsNumber c then skipNumber (c :: rest)
    else .error .malformed

/-- Skips what starts a value: all of a scalar, or the opening of a list or record up to its first
value.  Gives what comes next and the brackets open by then. -/
def skipOpening (brackets : List Bracket) (s : List Char) :
    Except Fault (Expectation × List Bracket × List Char) :=
  match skipBlanks s with
  | '[' :: rest =>
    match skipBlanks rest with
    | [] => .error .truncated
    | c :: after => .ok (if c = ']' then (.separator, brackets, after) else (.value, .list :: brackets, rest))
  | '\x7b' :: rest =>
    match skipBlanks rest with
    | [] => .error .truncated
    | c :: after =>
      if c = '\x7d' then .ok (.separator, brackets, after)
      else (skipName rest).map (.value, .record :: brackets, ·)
  | s => (skipScalar s).map (.separator, brackets, ·)

/-- Skips a comma and what leads to the next value, or a closing bracket. -/
def skipSeparator (bracket : Bracket) (outer : List Bracket) (s : List Char) :
    Except Fault (Expectation × List Bracket × List Char) :=
  match skipBlanks s with
  | [] => .error .truncated
  | c :: rest =>
    if c = bracket.close then .ok (.separator, outer, rest)
    else if c = ',' then
      match bracket with
      | .list => .ok (.value, bracket :: outer, rest)
      | .record => (skipName rest).map (.value, bracket :: outer, ·)
    else .error .malformed

/-- Skips up to the end of the outermost value; every step takes a character or more, so the text
itself counts the steps. -/
def skipUntilClosed : List Char → Expectation → List Bracket → List Char → Except Fault (List Char)
  | _, .separator, [], s => .ok s
  | [], _, _, _ => .error .truncated
  | _ :: fuel, expectation, brackets, s =>
    let next :=
      match expectation, brackets with
      | .separator, bracket :: outer => skipSeparator bracket outer s
      | _, brackets => skipOpening brackets s
    match next with
    | .error e => .error e
    | .ok (expectation, brackets, rest) => skipUntilClosed fuel expectation brackets rest

/-- Skips a value. -/
def skipValue (s : List Char) : Except Fault (List Char) := skipUntilClosed s .value [] s

end CallProfiler.Json
