import CallProfiler.Json.Basic
import CallProfiler.Text.Hex

/-!
# Quoted texts in documents

Quotes, backslashes and control characters are written as escapes.  Readers know all escapes; one
gives the text, the other only finds its end and therefore does not mind halves of surrogate pairs.
-/

namespace CallProfiler.Json

/-- A character as it is written between quotes. -/
def escape (c : Char) : List Char :=
  match c with
  | '"' => ['\\', '"']
  | '\\' => ['\\', '\\']
  | '\x08' => ['\\', 'b']
  | '\t' => ['\\', 't']
  | '\n' => ['\\', 'n']
  | '\x0c' => ['\\', 'f']
  | '\r' => ['\\', 'r']
  | c =>
    if c.toNat < 0x20 then
      ['\\', 'u', '0', '0', Nat.digitChar (c.toNat / 16), Nat.digitChar (c.toNat % 16)]
    else [c]

/-- A text in quotes. -/
def quoted (s : List Char) : List Char := '"' :: s.flatMap escape ++ ['"']

/-- What an escape of one letter stands for. -/
def escaped? (c : Char) : Option Char :=
  match c with
  | '"' => some '"'
  | '\\' => some '\\'
  | '/' => some '/'
  | 'b' => some '\x08'
  | 'f' => some '\x0c'
  | 'n' => some '\n'
  | 'r' => some '\r'
  | 't' => some '\t'
  | _ => none

/-- The four hexadecimal digits of an escape.  Four bytes must be left, whatever they are. -/
def codeUnit : List Char → Except Fault Nat
  | a :: b :: c :: d :: _ =>
    match [a, b, c, d].mapM Text.hexDigit? with
    | some digits => .ok (digits.foldl (fun n d => n * 16 + d) 0)
    | none => .error .malformed
  | s => if (s.map Char.utf8Size).sum < 4 then .error .truncated else .error .malformed

/-- The character of an escape with four digits, which may be followed by the second half of a pair,
and the number of characters taken. -/
def unicodeEscape (s : List Char) : Except Fault (Char × Nat) :=
  match codeUnit s with
  | .error e => .error e
  | .ok n =>
    if n < 0xD800 ∨ 0xDFFF < n then .ok (Char.ofNat n, 4)
    else if 0xDBFF < n then .error .malformed
    else
      match s.drop 4 with
      | [] => .error .truncated
      | '\\' :: [] => .error .truncated
      | '\\' :: 'u' :: rest =>
        match codeUnit rest with
        | .error e => .error e
        | .ok m =>
          if m < 0xDC00 ∨ 0xDFFF < m then .error .malformed
          else .ok (Char.ofNat (0x10000 + (n - 0xD800) * 0x400 + (m - 0xDC00)), 10)
      | _ => .error .malformed

/-- Reads a text behind its opening quote. -/
def readText : Reader (List Char)
  | [] => .error .truncated
  | '"' :: rest => .ok ([], rest)
  | '\\' :: rest =>
    match rest with
    | [] => .error .truncated
    | 'u' :: digits =>
      match unicodeEscape digits with
      | .error e => .error e
      | .ok (c, taken) =>
        match readText (digits.drop taken) with
        | .error e => .error e
        | .ok (s, rest) => .ok (c :: s, rest)
    | c :: rest =>
      match escaped? c with
      | none => .error .malformed
      | some c =>
        match readText rest with
        | .error e => .error e
        | .ok (s, rest) => .ok (c :: s, rest)
  | c :: rest =>
    if c.toNat < 0x20 then .error .malformed
    else
      match readText rest with
      | .error e => .error e
      | .ok (s, rest) => .ok (c :: s, rest)
termination_by s => s.length
decreasing_by all_goals simp; try omega

/-- Skips a text behind its opening quote. -/
def skipText : List Char → Except Fault (List Char)
  | [] => .error .truncated
  | '"' :: rest => .ok rest
  | '\\' :: rest =>
    match rest with
    | [] => .error .truncated
    | 'u' :: digits =>
      match codeUnit digits with
      | .error e => .error e
      | .ok _ => skipText (digits.drop 4)
    | c :: rest => if (escaped? c).isSome then skipText rest else .error .malformed
  | c :: rest => if c.toNat < 0x20 then .error .malformed else skipText rest
termination_by s => s.length
decreasing_by all_goals simp; try omega

/-- Reads the name of a field, which follows blanks. -/
def readName (s : List Char) : Except Fault (List Char × List Char) :=
  match skipBlanks s with
  | [] => .error .truncated
  | '"' :: rest => readText rest
  | _ => .error .malformed

end CallProfiler.Json
