import CallProfiler.Instruction.Length

/-!
# Decoders

A patcher asks a decoder for the instructions that it moves or copies.  What it relies on whatever the
decoder knows of the instruction set are bounds: an instruction takes at least one byte and no more than
there are, and bytes further on than the longest instruction can be have no part in how it is read.
-/

namespace CallProfiler.Instruction

/-- A way to read the first instruction of bytes that lie at an address. -/
structure Decoder where
  read : List UInt8 → Nat → Option Instruction
  length_pos : ∀ {bytes address i}, read bytes address = some i → 0 < i.length
  length_le : ∀ {bytes address i}, read bytes address = some i → i.length ≤ bytes.length
  read_take : ∀ bytes address, read (bytes.take maxLength) address = read bytes address

namespace Decoder

/-- The decoder of a mode. -/
def ofMode (mode : Mode) : Decoder where
  read bytes address := decode bytes address mode
  length_pos := decode_length_pos
  length_le := decode_length_le
  read_take bytes address := by
    simp only [decode, List.take_take, Nat.min_self]

/-- The first instruction of bytes, at the address where they lie. -/
def first (d : Decoder) (bytes : List UInt8) (address : Nat) : Option Instruction :=
  (d.read bytes address).map fun i => { i with address }

theorem of_first
    {d : Decoder} {bytes : List UInt8} {address : Nat} {i : Instruction}
    (h : d.first bytes address = some i) :
    i.address = address ∧ 0 < i.length ∧ i.length ≤ bytes.length := by
  obtain ⟨j, hj, rfl⟩ := Option.map_eq_some_iff.1 h
  have hpos := d.length_pos hj
  have hfits := d.length_le hj
  exact ⟨rfl, hpos, hfits⟩

end Decoder

end CallProfiler.Instruction
