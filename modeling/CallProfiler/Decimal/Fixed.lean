import CallProfiler.Decimal.Binary

/-!
# Numbers with a fixed number of decimals

The exact value is rounded to the given number of decimals, a half to the even neighbour.
-/

namespace CallProfiler.Decimal

/-- The text of `n` units of `10 ^ -places`, `places` being positive. -/
def fixedText (n places : Nat) : String :=
  let fraction := toString (n % 10 ^ places)
  toString (n / 10 ^ places) ++ "." ++
    String.ofList (List.replicate (places - fraction.length) '0') ++ fraction

/-- The text of a number with `places` decimals, a positive number of them. -/
def fixed (places : Nat) (x : Float) : String :=
  match Binary.ofBits x.toBits with
  | .nan => "NaN"
  | .infinite negative => if negative then "-inf" else "inf"
  | .finite negative magnitude exponent =>
    let scaled := magnitude * 10 ^ places
    let n :=
      if 0 ≤ exponent then scaled * 2 ^ exponent.toNat
      else roundHalfEven scaled (2 ^ (-exponent).toNat)
    (if negative then "-" else "") ++ fixedText n places

end CallProfiler.Decimal
