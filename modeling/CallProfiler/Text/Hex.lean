import CallProfiler.Instances

/-!
# Hexadecimal numbers

Writing a number in hexadecimal and reading one.  The reader takes an optional plus sign and at
least one digit, and refuses numbers of more than 64 bits; of several faults the leftmost is named.
-/

namespace CallProfiler.Text

/-- The lower-case hexadecimal digits of a number. -/
def hexDigits (n : Nat) : List Char := Nat.toDigits 16 n

/-- A number in hexadecimal behind `0x`. -/
def hex (n : Nat) : String := "0x" ++ String.ofList (hexDigits n)

/-- Why a text is no number. -/
inductive NumberFault where
  | empty
  | invalidDigit
  | tooLarge
  deriving DecidableEq

def NumberFault.message : NumberFault → String
  | empty => "cannot parse integer from empty string"
  | invalidDigit => "invalid digit found in string"
  | tooLarge => "number too large to fit in target type"

/-- The value of a hexadecimal digit. -/
def hexDigit? (c : Char) : Option Nat :=
  let n := c.toNat
  if 48 ≤ n ∧ n ≤ 57 then some (n - 48)
  else if 97 ≤ n ∧ n ≤ 102 then some (n - 87)
  else if 65 ≤ n ∧ n ≤ 70 then some (n - 55)
  else none

/-- Reads digits onto a number read so far. -/
def readHexDigits (value : Nat) : List Char → Except NumberFault Nat
  | [] => .ok value
  | c :: rest =>
    match hexDigit? c with
    | none => .error .invalidDigit
    | some d =>
      if value * 16 + d < 2 ^ 64 then readHexDigits (value * 16 + d) rest else .error .tooLarge

/-- Reads a hexadecimal number of at most 64 bits. -/
def readHex : List Char → Except NumberFault Nat
  | [] => .error .empty
  | '+' :: c :: rest => readHexDigits 0 (c :: rest)
  | digits => readHexDigits 0 digits

end CallProfiler.Text
