import CallProfiler.Text.Hex
import CallProfiler.Text.Printable
import CallProfiler.Text.Shown

/-!
# Quoted texts in messages

A text is quoted so that nothing in it can be mistaken: quotes and backslashes get a backslash, some
controls have letters, and what is not printable is written as its number.
-/

namespace CallProfiler.Text

/-- A character as it is shown between quotes. -/
def shownChar (c : Char) : List Char :=
  match c with
  | '\x00' => ['\\', '0']
  | '\t' => ['\\', 't']
  | '\r' => ['\\', 'r']
  | '\n' => ['\\', 'n']
  | '\\' => ['\\', '\\']
  | '"' => ['\\', '"']
  | c => if isPrintable c then [c] else ['\\', 'u', '\x7b'] ++ hexDigits c.toNat ++ ['\x7d']

/-- A text as it is quoted in messages. -/
def quoted (s : String) : String := String.ofList ('"' :: s.toList.flatMap shownChar ++ ['"'])

/-- A text shown as a value. -/
def Shown.quoted (s : String) : Shown := .word (Text.quoted s)

end CallProfiler.Text
