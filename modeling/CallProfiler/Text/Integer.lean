import CallProfiler.Instances

/-!
# Decimal integers

Integers of 64 bits as they are typed: digits with an optional sign.
-/

namespace CallProfiler.Text

/-- The value of at least one decimal digit and nothing else. -/
def readDigits? (s : List Char) : Option Nat :=
  if s ≠ [] ∧ s.all Char.isDigit then some (s.foldl (fun n c => n * 10 + (c.toNat - 48)) 0) else none

/-- A natural number of at most 64 bits; a plus sign may stand in front. -/
def readNatural? (s : List Char) : Option Nat :=
  let digits :=
    match s with
    | '+' :: digits => digits
    | digits => digits
  (readDigits? digits).filter (· < 2 ^ 64)

/-- An integer of 64 bits with an optional sign. -/
def readInteger? (s : List Char) : Option Int :=
  match s with
  | '-' :: digits => ((readDigits? digits).filter (· ≤ 2 ^ 63)).map fun n => -(n : Int)
  | s => ((readNatural? s).filter (· < 2 ^ 63)).map Int.ofNat

end CallProfiler.Text
