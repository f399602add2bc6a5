import CallProfiler.Instruction.Prologue
import CallProfiler.Proofs.Instruction.Locality

/-!
# The decoder for 64-bit code

`Decoder.ofMode` reads instructions with `decode`, which puts them where their bytes lie; for 64-bit code it
is as documented.

**Main statements.**
* `Decoder.first_ofMode`: what the decoder of a mode reads.
* `Decoder.documented_ofMode`: the decoder for 64-bit code is as documented.
-/

namespace CallProfiler.Instruction

variable {bytes : List UInt8} {address : Nat} {i : Instruction}

theorem address_complete
    {mode : Mode} {p : Prefixes} {form : Form} {start : Nat} {inMemory relative : Bool} {rest : List UInt8}
    (h : complete mode p form address start inMemory relative rest = some i) :
    i.address = address := by
  simp only [complete] at h
  split at h
  · cases h
  · split at h
    · cases h
    · cases h
      rfl

theorem address_withOperand
    {mode : Mode} {p : Prefixes} {select : OperandByte → Option Form} {start : Nat}
    (h : withOperand mode p select address start bytes = some i) :
    i.address = address := by
  cases bytes with
  | nil =>
      cases h
  | cons byte rest =>
      simp only [withOperand, Option.bind_eq_bind, Option.bind_eq_some_iff] at h
      obtain ⟨form, -, h⟩ := h
      split at h
      · exact address_complete h
      · split at h
        · cases h
        · exact address_complete h

/-- An instruction is at the address where its bytes lie. -/
theorem address_decode
    {mode : Mode}
    (h : decode bytes address mode = some i) :
    i.address = address := by
  unfold decode at h
  simp only at h
  split at h
  · simp only [withSuffix, Option.bind_eq_bind, Option.bind_eq_some_iff] at h
    obtain ⟨j, hj, suffix, -, h⟩ := h
    split at h
    · cases h
      exact address_withOperand hj
    · cases h
  · split at h
    · cases h
    · cases h
    · exact address_complete h
    · exact address_withOperand h

namespace Decoder

theorem first_ofMode
    (mode : Mode) (bytes : List UInt8) (address : Nat) :
    (ofMode mode).first bytes address = decode bytes address mode := by
  rw [first]
  cases h : decode bytes address mode with
  | none =>
      simp only [ofMode, h, Option.map_none]
  | some i =>
      obtain rfl := address_decode h
      simp only [ofMode, h, Option.map_some]

theorem nearBranchesLong_ofMode :
    (ofMode .bits64).NearBranchesLong := by
  intro bytes address i target h
  rw [first_ofMode] at h
  exact four_le_of_nearBranch h

/-- **The decoder for 64-bit code** is as documented. -/
theorem documented_ofMode :
    (ofMode .bits64).Documented where
  decided := by
    intro bytes address i h
    simp only [first_ofMode] at h ⊢
    exact decided_decode h
  near := nearBranchesLong_ofMode
  nop _ _ := rfl
  shortJump _ _ _ := rfl
  nearJump := by
    rintro _ _ (⟨rfl, rfl⟩ | ⟨rfl, rfl⟩) b c e f rest address
    · rfl
    · rfl
  longJump _ _ _ _ _ _ := rfl

end Decoder

end CallProfiler.Instruction
