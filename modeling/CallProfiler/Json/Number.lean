import CallProfiler.Json.Basic

/-!
# Numbers in documents

Integers of at most 64 bits are read exactly.  All other numbers are told apart only from those that
are too large for a floating-point number, which are refused.  Skipping a number checks its form and
not its size.
-/

namespace CallProfiler.Json

/-- A number that was read. -/
inductive Number where
  | integer (n : Int)
  /-- It has decimals or an exponent, is zero with a sign, or is out of the range of 64 bits. -/
  | fraction
  deriving DecidableEq

def isDigit (c : Char) : Bool := 48 ≤ c.toNat && c.toNat ≤ 57

/-- Appends digits to a number as long as it stays below `2 ^ 64`, and counts those left out. -/
def leading (value : Nat) : List Char → Nat × Nat
  | [] => (value, 0)
  | c :: rest =>
    let next := value * 10 + (c.toNat - 48)
    if next < 2 ^ 64 then leading next rest else (value, rest.length + 1)

/-- The number `value * 10 ^ exponent` is too large for a floating-point number. -/
def isTooLarge (value : Nat) (exponent : Int) : Bool :=
  value ≠ 0 && 0 ≤ exponent &&
    (308 < exponent || (Float.ofNat value * Float.ofScientific 1 false exponent.toNat).isInf)

/-- A number that is no integer of 64 bits. -/
def fractionOf (value : Nat) (exponent : Int) (rest : List Char) : Except Fault (Number × List Char) :=
  if isTooLarge value exponent then .error .malformed else .ok (.fraction, rest)

/-- Digits, of which there is at least one. -/
def someDigits (s : List Char) : Except Fault (List Char × List Char) :=
  match s.span isDigit with
  | ([], []) => .error .truncated
  | ([], _) => .error .malformed
  | (digits, rest) => .ok (digits, rest)

/-- The value of decimal digits. -/
def decimalValue (digits : List Char) : Nat := digits.foldl (fun n c => n * 10 + (c.toNat - 48)) 0

/-- The digits of an exponent behind its letter, with their sign. -/
def exponentDigits : List Char → Bool × List Char
  | '+' :: rest => (false, rest)
  | '-' :: rest => (true, rest)
  | rest => (false, rest)

/-- Reads an exponent behind its letter. -/
def readExponent (value : Nat) (exponent : Int) (s : List Char) : Except Fault (Number × List Char) :=
  let (negative, s) := exponentDigits s
  match someDigits s with
  | .error e => .error e
  | .ok (digits, rest) =>
    let e : Int := decimalValue digits
    fractionOf value (if negative then exponent - e else exponent + e) rest

/-- Reads what follows the digits in front of the point, of which `dropped` are not in `value`. -/
def readFraction (negative : Bool) (value dropped : Nat) (s : List Char) :
    Except Fault (Number × List Char) :=
  match s with
  | '.' :: s =>
    match someDigits s with
    | .error e => .error e
    | .ok (digits, rest) =>
      let (value, left) := leading value digits
      let exponent : Int := dropped - (digits.length - left : Nat)
      match rest with
      | c :: s =>
        if c = 'e' ∨ c = 'E' then readExponent value exponent s else fractionOf value exponent rest
      | [] => fractionOf value exponent rest
  | rest =>
    let whole : Except Fault (Number × List Char) :=
      if dropped ≠ 0 then fractionOf value dropped rest
      else if ¬ negative then .ok (.integer value, rest)
      else if value = 0 ∨ 2 ^ 63 < value then .ok (.fraction, rest)
      else .ok (.integer (-value), rest)
    match rest with
    | c :: s => if c = 'e' ∨ c = 'E' then readExponent value dropped s else whole
    | [] => whole

/-- Reads a number behind its sign. -/
def readMagnitude (negative : Bool) (s : List Char) : Except Fault (Number × List Char) :=
  match someDigits s with
  | .error e => .error e
  | .ok ('0' :: _ :: _, _) => .error .malformed
  | .ok (digits, rest) =>
    let (value, dropped) := leading 0 digits
    readFraction negative value dropped rest

/-- Reads a number. -/
def readNumber : Reader Number
  | '-' :: rest => readMagnitude true rest
  | s => readMagnitude false s

/-- A text that starts a number. -/
def startsNumber (c : Char) : Bool := c = '-' || isDigit c

/-- Skips digits, of which there is at least one. -/
def skipDigits (s : List Char) : Except Fault (List Char) :=
  match s.span isDigit with
  | ([], _) => .error .malformed
  | (_, rest) => .ok rest

/-- Skips an exponent if there is one. -/
def skipExponent : List Char → Except Fault (List Char)
  | [] => .ok []
  | c :: rest => if c = 'e' ∨ c = 'E' then skipDigits (exponentDigits rest).2 else .ok (c :: rest)

/-- Skips a number behind its sign. -/
def skipMagnitude (s : List Char) : Except Fault (List Char) :=
  match s.span isDigit with
  | ([], _) => .error .malformed
  | ('0' :: _ :: _, _) => .error .malformed
  | (_, '.' :: rest) =>
    match skipDigits rest with
    | .error e => .error e
    | .ok rest => skipExponent rest
  | (_, rest) => skipExponent rest

/-- Skips a number. -/
def skipNumber : List Char → Except Fault (List Char)
  | '-' :: rest => skipMagnitude rest
  | s => skipMagnitude s

end CallProfiler.Json
