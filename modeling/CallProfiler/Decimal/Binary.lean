import CallProfiler.Instances

/-!
# Binary floating-point numbers as exact values

The 64 bits of a floating-point number denote a sign and a natural number times a power of two, an
infinity, or no number.
-/

namespace CallProfiler.Decimal

/-- What the bits of a floating-point number denote. -/
inductive Binary where
  /-- `magnitude * 2 ^ exponent`, negated if `negative`. -/
  | finite (negative : Bool) (magnitude : Nat) (exponent : Int)
  | infinite (negative : Bool)
  | nan
  deriving DecidableEq

namespace Binary

/-- Bits of the stored significand. -/
def significandBits : Nat := 52

/-- The exponent of the least positive number. -/
def leastExponent : Int := -1074

/-- What 64 bits denote. -/
def ofBits (bits : UInt64) : Binary :=
  let n := bits.toNat
  let negative := decide (2 ^ 63 ≤ n)
  let exponent := n / 2 ^ significandBits % 2 ^ 11
  let fraction := n % 2 ^ significandBits
  if exponent = 0 then .finite negative fraction leastExponent
  else if exponent = 2047 then if fraction = 0 then .infinite negative else .nan
  else .finite negative (2 ^ significandBits + fraction) (leastExponent + (exponent - 1 : Nat))

end Binary

/-- A quotient rounded to the nearest integer, a half to the even neighbour. -/
def roundHalfEven (numerator denominator : Nat) : Nat :=
  let floor := numerator / denominator
  let rest := numerator % denominator
  if 2 * rest < denominator then floor
  else if denominator < 2 * rest then floor + 1
  else floor + floor % 2

end CallProfiler.Decimal
