import CallProfiler.Instruction.Length

/-!
# How long a near branch is

A near branch in 64-bit code takes at least four bytes: its displacement has that many, but for a
transaction with the operand-size prefix, which is itself a byte in front of the opcode.

**Main statements.**
* `near_complete`: the displacement of a near branch.
* `four_le_of_nearBranch`: the lower bound.
-/

namespace CallProfiler.Instruction

variable {mode : Mode} {p : Prefixes} {address start : Nat} {i : Instruction}

/-- The operand-size prefix is one of the bytes in front. -/
theorem count_pos_scanFrom
    (mode : Mode) (p : Prefixes) (bytes : List UInt8)
    (before : p.operandSize = true → 0 < p.count) :
    (Prefixes.scanFrom mode p bytes).1.operandSize = true →
      0 < (Prefixes.scanFrom mode p bytes).1.count := by
  induction bytes generalizing p with
  | nil =>
      exact before
  | cons byte rest ih =>
      rw [Prefixes.scanFrom]
      cases hq : p.extend mode byte with
      | none =>
          exact before
      | some q =>
          refine ih q fun _ => ?_
          have hcount := count_extend hq
          omega

/-- A near branch has a displacement of four bytes, or of two with the operand-size prefix. -/
theorem near_complete
    {form : Form} {inMemory relative : Bool} {rest : List UInt8} {target : Nat}
    (h : complete .bits64 p form address start inMemory relative rest = some i)
    (near : i.relocation = .nearBranch target) :
    form.immediate.bytes .bits64 p = 4 ∨
      (form.immediate.bytes .bits64 p = 2 ∧ p.operandSize = true) := by
  simp only [complete] at h
  split at h
  · cases h
  · split at h
    · cases h
    · cases h
      simp only at near
      cases relative with
      | true =>
          cases near
      | false =>
          simp only [Bool.false_eq_true, if_false, relocationOf] at near
          split at near
          · cases near
          · next himm =>
              left
              rw [himm]
              rfl
          · next himm =>
              rw [himm]
              simp only [Immediate.bytes, operandWidth]
              cases p.wide
              · cases p.operandSize
                · left
                  rfl
                · right
                  exact ⟨rfl, rfl⟩
              · left
                rfl
          · cases near

theorem near_withOperand
    {select : OperandByte → Option Form} {bytes : List UInt8} {target : Nat}
    (h : withOperand .bits64 p select address start bytes = some i)
    (near : i.relocation = .nearBranch target)
    (opcode : 0 < start) :
    4 ≤ i.length := by
  cases bytes with
  | nil =>
      cases h
  | cons byte rest =>
      simp only [withOperand, Option.bind_eq_bind, Option.bind_eq_some_iff] at h
      obtain ⟨form, -, h⟩ := h
      split at h
      · have hlength := length_complete h
        have hnear := near_complete h near
        omega
      · split at h
        · cases h
        · have hlength := length_complete h
          have hnear := near_complete h near
          omega

theorem four_le_of_nearBranch
    {bytes : List UInt8} {target : Nat}
    (h : decode bytes address .bits64 = some i)
    (near : i.relocation = .nearBranch target) :
    4 ≤ i.length := by
  have hprefixed := count_pos_scanFrom .bits64 .empty (bytes.take maxLength)
    (fun no => absurd no Bool.false_ne_true)
  unfold decode at h
  simp only [Prefixes.scan] at h
  split at h
  · simp only [withSuffix, Option.bind_eq_bind, Option.bind_eq_some_iff] at h
    obtain ⟨j, hj, suffix, -, h⟩ := h
    split at h
    · cases h
      exact near_withOperand hj near (by omega)
    · cases h
  · split at h
    · cases h
    · cases h
    · next form size rest hread =>
        have hsize := length_readOpcode hread
        have hlength := length_complete h
        rcases near_complete h near with hfour | ⟨htwo, hprefix⟩
        · omega
        · have hpos := hprefixed hprefix
          omega
    · next select size rest hread =>
        have hsize := length_readOpcode hread
        exact near_withOperand h near (by omega)

end CallProfiler.Instruction
