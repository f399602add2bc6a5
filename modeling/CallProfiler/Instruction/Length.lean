import CallProfiler.Instruction.Decode

/-!
# How many bytes an instruction takes

An instruction takes at least one byte, and only bytes that were read.  Lengths are counted from the
prefixes over the opcode and the operand bytes to the immediate.
-/

namespace CallProfiler.Instruction

variable {mode : Mode} {p : Prefixes} {address start : Nat} {i : Instruction}

/-! ## Prefixes -/

theorem count_extend
    {q : Prefixes} {byte : UInt8}
    (h : p.extend mode byte = some q) :
    q.count = p.count + 1 := by
  unfold Prefixes.extend at h
  simp only at h
  split at h
  all_goals first
    | (cases h; rfl)
    | (split at h <;> cases h; rfl)

theorem count_scanFrom
    (mode : Mode) (p : Prefixes) (bytes : List UInt8) :
    (Prefixes.scanFrom mode p bytes).1.count + (Prefixes.scanFrom mode p bytes).2.length
      = p.count + bytes.length := by
  induction bytes generalizing p with
  | nil =>
      rfl
  | cons byte rest ih =>
      rw [Prefixes.scanFrom]
      cases hq : p.extend mode byte with
      | none =>
          rfl
      | some q =>
          have hcount := count_extend hq
          have hrest := ih q
          simp only [List.length_cons]
          omega

/-- The bytes that an instruction is read from, cut at the prefixes. -/
theorem count_scan
    (mode : Mode) (bytes : List UInt8) :
    (Prefixes.scan mode bytes).1.count + (Prefixes.scan mode bytes).2.length = bytes.length := by
  have h := count_scanFrom mode .empty bytes
  rw [Prefixes.scan, h]
  exact Nat.zero_add _

/-! ## Operands and immediates -/

theorem length_complete
    {form : Form} {inMemory relative : Bool} {rest : List UInt8}
    (h : complete mode p form address start inMemory relative rest = some i) :
    i.length = start + form.immediate.bytes mode p ∧
      form.immediate.bytes mode p ≤ rest.length := by
  simp only [complete] at h
  split at h
  · cases h
  · next hlong =>
      split at h
      · cases h
      · cases h
        exact ⟨rfl, Nat.le_of_not_lt hlong⟩

theorem length_withOperand
    {select : OperandByte → Option Form} {bytes : List UInt8}
    (h : withOperand mode p select address start bytes = some i) :
    i.length ≤ start + bytes.length := by
  cases bytes with
  | nil =>
      cases h
  | cons byte rest =>
      simp only [withOperand, Option.bind_eq_bind, Option.bind_eq_some_iff] at h
      obtain ⟨form, -, h⟩ := h
      split at h
      · have hlength := length_complete h
        simp only [List.length_cons]
        omega
      · split at h
        · cases h
        · have hlength := length_complete h
          simp only [List.length_drop] at hlength
          simp only [List.length_cons]
          omega

theorem start_lt_withOperand
    {select : OperandByte → Option Form} {bytes : List UInt8}
    (h : withOperand mode p select address start bytes = some i) :
    start < i.length := by
  cases bytes with
  | nil =>
      cases h
  | cons byte rest =>
      simp only [withOperand, Option.bind_eq_bind, Option.bind_eq_some_iff] at h
      obtain ⟨form, _, h⟩ := h
      split at h
      · have hlength := (length_complete h).1
        omega
      · split at h
        · cases h
        · have hlength := (length_complete h).1
          omega

theorem start_lt_withSuffix
    {bytes : List UInt8}
    (h : withSuffix mode p address start bytes = some i) :
    start < i.length := by
  simp only [withSuffix, Option.bind_eq_bind, Option.bind_eq_some_iff] at h
  obtain ⟨j, hj, suffix, -, h⟩ := h
  split at h
  · cases h
    exact start_lt_withOperand hj
  · cases h

/-! ## Instructions -/

theorem length_readOpcode
    {bytes rest : List UInt8} {entry : Entry} {size : Nat}
    (h : readOpcode mode p bytes = some (entry, size, rest)) :
    0 < size ∧ size + rest.length = bytes.length := by
  unfold readOpcode at h
  split at h
  · cases h
  · split at h
    · cases h
    · cases h
      simp only [List.length_cons]
      omega
    · cases h
      simp only [List.length_cons]
      omega
    · cases h
    · cases h
    · cases h
      simp only [List.length_cons]
      omega
  · cases h
    simp only [List.length_cons]
    omega

/-- An instruction takes at least one byte. -/
theorem decode_length_pos
    {bytes : List UInt8}
    (h : decode bytes address mode = some i) :
    0 < i.length := by
  unfold decode at h
  simp only at h
  split at h
  · exact Nat.zero_lt_of_lt (start_lt_withSuffix h)
  · split at h
    · cases h
    · cases h
    · next form size rest hread =>
        have hsize := length_readOpcode hread
        have hlength := length_complete h
        omega
    · exact Nat.zero_lt_of_lt (start_lt_withOperand h)

theorem decode_length_le_taken
    {bytes : List UInt8}
    (h : decode bytes address mode = some i) :
    i.length ≤ (bytes.take maxLength).length := by
  have hcount := count_scan mode (bytes.take maxLength)
  unfold decode at h
  simp only at h
  split at h
  · next rest hcode =>
      simp only [withSuffix, Option.bind_eq_bind, Option.bind_eq_some_iff] at h
      obtain ⟨j, hj, suffix, -, h⟩ := h
      split at h
      · cases h
        have hlength := length_withOperand hj
        rw [hcode] at hcount
        simp only [List.length_cons] at hcount
        omega
      · cases h
  · split at h
    · cases h
    · cases h
    · next form size rest hread =>
        have hsize := length_readOpcode hread
        have hlength := length_complete h
        omega
    · next select size rest hread =>
        have hsize := length_readOpcode hread
        have hlength := length_withOperand h
        omega

theorem decode_length_le
    {bytes : List UInt8}
    (h : decode bytes address mode = some i) :
    i.length ≤ bytes.length := by
  have hlength := decode_length_le_taken h
  rw [List.length_take] at hlength
  omega

theorem decode_length_le_maxLength
    {bytes : List UInt8}
    (h : decode bytes address mode = some i) :
    i.length ≤ maxLength := by
  have hlength := decode_length_le_taken h
  rw [List.length_take] at hlength
  omega

end CallProfiler.Instruction
