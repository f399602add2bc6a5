import CallProfiler.Decimal.Binary

/-!
# Shortest decimals

The shortest decimal of a floating-point number has the fewest digits that read back as the number,
and among those is nearest to it.  Every real number between the midpoints to the two neighbours
reads back; the midpoints themselves do if the significand is even.
-/

namespace CallProfiler.Decimal

/-- The numbers that read back as one number: multiples of a power of two. -/
structure Neighbourhood where
  value : Nat
  low : Nat
  high : Nat
  /-- All three count units of `2 ^ exponent`. -/
  exponent : Int
  /-- The two ends belong to it. -/
  closed : Bool
  deriving DecidableEq

namespace Neighbourhood

/-- The neighbourhood of `magnitude * 2 ^ exponent`: quarter units leave room for all midpoints. -/
def of (magnitude : Nat) (exponent : Int) : Neighbourhood :=
  let atPower := magnitude = 2 ^ Binary.significandBits ∧ exponent ≠ Binary.leastExponent
  { value := 4 * magnitude
    low := 4 * magnitude - (if atPower then 1 else 2)
    high := 4 * magnitude + 2
    exponent := exponent - 2
    closed := magnitude % 2 = 0 }

/-- A decimal `d * 10 ^ e` in units that it shares with the multiples of `2 ^ exponent`. -/
def decimalUnits (exponent e : Int) (d : Nat) : Nat := d * 10 ^ e.toNat * 2 ^ (-exponent).toNat

/-- A multiple of `2 ^ exponent` in the same units. -/
def binaryUnits (exponent e : Int) (n : Nat) : Nat := n * 2 ^ exponent.toNat * 10 ^ (-e).toNat

/-- The decimal `d * 10 ^ e` reads back. -/
def holds (h : Neighbourhood) (e : Int) (d : Nat) : Bool :=
  let x := decimalUnits h.exponent e d
  let low := binaryUnits h.exponent e h.low
  let high := binaryUnits h.exponent e h.high
  if h.closed then low ≤ x && x ≤ high else low < x && x < high

/-- The multiple of `10 ^ e` that reads back and is nearest, an even one on a tie. -/
def onGrid? (h : Neighbourhood) (e : Int) : Option Nat :=
  let v := binaryUnits h.exponent e h.value
  let unit := decimalUnits h.exponent e 1
  let down := v / unit
  match h.holds e down, h.holds e (down + 1) with
  | false, false => none
  | true, false => some down
  | false, true => some (down + 1)
  | true, true => some (roundHalfEven v unit)

/-- The power of ten just above a positive value. -/
def magnitude (h : Neighbourhood) : Int :=
  let whole := h.value * 2 ^ h.exponent.toNat / 2 ^ (-h.exponent).toNat
  if 0 < whole then ((Nat.toDigits 10 whole).length : Int)
  else
    let zeros := (List.range 400).find? fun j =>
      2 ^ (-h.exponent).toNat ≤ h.value * 10 ^ (j + 1)
    Int.negOfNat (zeros.getD 0)

end Neighbourhood

/-- Drops zeros at the end of a decimal, at most `fuel` of them. -/
def dropZeros : Nat → Nat → Int → Nat × Int
  | 0, d, e => (d, e)
  | fuel + 1, d, e => if d ≠ 0 ∧ d % 10 = 0 then dropZeros fuel (d / 10) (e + 1) else (d, e)

/-- The shortest decimal `d * 10 ^ e` of a positive value. -/
def shortest (magnitude : Nat) (exponent : Int) : Nat × Int :=
  let h := Neighbourhood.of magnitude exponent
  let top := h.magnitude
  let found := (List.range 17).findSome? fun n =>
    let e := top - (n + 1 : Nat)
    (h.onGrid? e).map (·, e)
  match found with
  | none => (0, 0)
  | some (d, e) => dropZeros 20 d e

/-- Where positional notation ends and how exponents are written. -/
structure Style where
  /-- Positional if the point is at most so far behind the first digit. -/
  maxPoint : Int
  /-- Positional if the point is at least so far. -/
  minPoint : Int
  deriving DecidableEq

/-- A decimal in a notation: positional with at least one decimal, or with an exponent. -/
def render (n : Style) (d : Nat) (e : Int) : String :=
  let digits := toString d
  let point : Int := digits.length + e
  let zeros (k : Int) := String.ofList (List.replicate k.toNat '0')
  let cut := digits.toList
  if 0 ≤ e ∧ point ≤ n.maxPoint then digits ++ zeros e ++ ".0"
  else if 0 < point ∧ point ≤ n.maxPoint then
    String.ofList (cut.take point.toNat) ++ "." ++ String.ofList (cut.drop point.toNat)
  else if n.minPoint ≤ point ∧ point ≤ 0 then "0." ++ zeros (-point) ++ digits
  else
    let exponent := toString (point - 1)
    match cut with
    | [] => ""
    | [c] => String.singleton c ++ "e" ++ exponent
    | c :: rest => String.singleton c ++ "." ++ String.ofList rest ++ "e" ++ exponent

end CallProfiler.Decimal
