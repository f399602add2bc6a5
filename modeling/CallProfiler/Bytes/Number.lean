import CallProfiler.Instances

/-!
# Numbers as bytes

Numbers of a fixed width are spelled with the least significant byte first, signed ones in two's
complement.  What is written for a number that fits reads back as the number.
-/

namespace CallProfiler.Bytes

/-- The number that bytes spell, least significant byte first. -/
def littleEndian : List UInt8 → Nat
  | [] => 0
  | b :: rest => b.toNat + 256 * littleEndian rest

/-- The number that bytes spell in two's complement. -/
def signedLittleEndian (bytes : List UInt8) : Int :=
  Int.bmod (littleEndian bytes) (256 ^ bytes.length)

/-- The `count` low bytes of a number, least significant first. -/
def littleEndianBytes : Nat → Nat → List UInt8
  | 0, _ => []
  | count + 1, n => UInt8.ofNat n :: littleEndianBytes count (n / 256)

@[simp] theorem length_littleEndianBytes (count n : Nat) :
    (littleEndianBytes count n).length = count := by
  induction count generalizing n with
  | zero => rfl
  | succ count ih => simp [littleEndianBytes, ih]

/-- The bytes written for a number that fits in them read back as the number. -/
theorem littleEndian_littleEndianBytes (count n : Nat) :
    littleEndian (littleEndianBytes count n) = n % 256 ^ count := by
  induction count generalizing n with
  | zero => simp [littleEndianBytes, littleEndian, Nat.mod_one]
  | succ count ih =>
    have low : (UInt8.ofNat n).toNat = n % 256 := rfl
    rw [littleEndianBytes, littleEndian, ih, low, Nat.pow_succ,
      Nat.mul_comm (256 ^ count) 256, Nat.mod_mul]

end CallProfiler.Bytes
