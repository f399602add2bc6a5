import CallProfiler.Instruction.Prologue

/-!
# Runs of instructions

`Decoder.prologue` reads instructions one behind the other until enough bytes are covered.  `Spells` says
that bytes begin with given instructions, without saying where a run ends.  None of this depends on how one
instruction is read: whatever the decoder, instructions take at least one byte and no more than there are,
and bytes further on than the longest instruction can be have no part in them.

**Main statements.**
* `Decoder.spells_of_prologue`, `Decoder.prologue_of_spells`: reading and spelling.
* `Decoder.prologue_take`: how many bytes have to be looked at.
* `Decoder.covers_prologue`: what is read.
-/

namespace CallProfiler.Instruction

/-- The bytes that a run takes. -/
def runLength (run : List Instruction) : Nat := (run.map (·.length)).sum

@[simp] theorem runLength_cons
    (i : Instruction) (rest : List Instruction) :
    runLength (i :: rest) = i.length + runLength rest := by
  rw [runLength, List.map_cons, List.sum_cons]
  rfl

/-- The instructions lie one behind the other from an address on. -/
def Contiguous (address : Nat) : List Instruction → Prop
  | [] => True
  | i :: rest => i.address = address ∧ Contiguous (address + i.length) rest

/-- A run from an address on that covers what is needed within so many bytes, and does not without its last
instruction. -/
structure Covers (address need size : Nat) (run : List Instruction) : Prop where
  contiguous : Contiguous address run
  enough : need ≤ runLength run
  least : 0 < need → runLength run.dropLast < need
  within : runLength run ≤ size

theorem Covers.cons
    {address need size : Nat} {i : Instruction} {rest : List Instruction}
    (h : Covers (address + i.length) (need - i.length) (size - i.length) rest)
    (hat : i.address = address)
    (hneed : 0 < need)
    (hfits : i.length ≤ size)
    (hlast : need ≤ i.length → rest = []) :
    Covers address need size (i :: rest) := by
  have henough := h.enough
  have hwithin := h.within
  refine ⟨⟨hat, h.contiguous⟩, ?_, fun _ => ?_, ?_⟩
  · rw [runLength_cons]
    omega
  · by_cases hcovered : need ≤ i.length
    · rw [hlast hcovered]
      exact hneed
    · have hleast := h.least (by omega)
      have hmore : rest ≠ [] := by
        rintro rfl
        have hnone : runLength [] = 0 := rfl
        omega
      rw [List.dropLast_cons_of_ne_nil hmore, runLength_cons]
      omega
  · rw [runLength_cons]
    omega

namespace Decoder

variable (d : Decoder) {bytes : List UInt8} {address need count : Nat} {i : Instruction}
  {run : List Instruction}

/-! ## Reading -/

theorem first_take
    (h : maxLength ≤ count) :
    d.first (bytes.take count) address = d.first bytes address := by
  rw [first, first, ← d.read_take (bytes.take count), List.take_take, Nat.min_eq_left h, d.read_take]

variable {d} in
theorem length_le_maxLength
    (h : d.first bytes address = some i) :
    i.length ≤ maxLength := by
  rw [← first_take d (Nat.le_refl maxLength)] at h
  have hfits := (of_first h).2.2
  rw [List.length_take] at hfits
  omega

@[simp] theorem prologue_zero :
    d.prologue bytes address 0 = some [] := by
  rw [prologue, if_pos rfl]

theorem prologue_of_pos
    (hneed : 0 < need) :
    d.prologue bytes address need =
      (d.first bytes address).bind fun i =>
        (d.prologue (bytes.drop i.length) (address + i.length) (need - i.length)).map (i :: ·) := by
  rw [prologue, if_neg (Nat.ne_of_gt hneed)]
  split
  · next hnone =>
      rw [hnone]
      rfl
  · next i hsome =>
      rw [hsome]
      rfl

/-- **What is looked at** is no more than the bytes that are needed and one longest instruction that begins
with the last of them. -/
theorem prologue_take
    (h : need + maxLength ≤ count + 1) :
    d.prologue (bytes.take count) address need = d.prologue bytes address need := by
  induction need using Nat.strongRecOn generalizing bytes address count with
  | ind need ih =>
      rcases Nat.eq_zero_or_pos need with rfl | hneed
      · rw [prologue_zero, prologue_zero]
      · rw [prologue_of_pos d hneed, prologue_of_pos d hneed, first_take d (by omega)]
        cases hfirst : d.first bytes address with
        | none =>
            rfl
        | some i =>
            have hpos := (of_first hfirst).2.1
            simp only [Option.bind_some]
            rw [List.drop_take]
            by_cases hcovered : need ≤ i.length
            · rw [Nat.sub_eq_zero_of_le hcovered, prologue_zero, prologue_zero]
            · rw [ih (need - i.length) (by omega) (by omega)]

/-- **What is read** covers what is needed within the bytes, with no instruction too many. -/
theorem covers_prologue
    (h : d.prologue bytes address need = some run) :
    Covers address need bytes.length run := by
  induction need using Nat.strongRecOn generalizing bytes address run with
  | ind need ih =>
      rcases Nat.eq_zero_or_pos need with rfl | hneed
      · rw [prologue_zero] at h
        cases h
        exact ⟨trivial, Nat.zero_le _, fun h => h, Nat.zero_le _⟩
      · rw [prologue_of_pos d hneed] at h
        obtain ⟨i, hfirst, h⟩ := Option.bind_eq_some_iff.1 h
        obtain ⟨rest, hrest, rfl⟩ := Option.map_eq_some_iff.1 h
        obtain ⟨hat, hpos, hfits⟩ := of_first hfirst
        have hcovers := ih (need - i.length) (by omega) hrest
        rw [List.length_drop] at hcovers
        refine hcovers.cons hat hneed hfits fun hcovered => ?_
        rw [Nat.sub_eq_zero_of_le hcovered, prologue_zero] at hrest
        exact (Option.some.inj hrest).symm

/-! ## Spelling -/

/-- The bytes at an address begin with the instructions of a run. -/
def Spells (bytes : List UInt8) (address : Nat) : List Instruction → Prop
  | [] => True
  | i :: rest =>
    d.first bytes address = some i ∧ Spells (bytes.drop i.length) (address + i.length) rest

variable {d}

theorem spells_of_prologue
    (h : d.prologue bytes address need = some run) :
    d.Spells bytes address run := by
  induction need using Nat.strongRecOn generalizing bytes address run with
  | ind need ih =>
      rcases Nat.eq_zero_or_pos need with rfl | hneed
      · rw [prologue_zero] at h
        cases h
        exact trivial
      · rw [prologue_of_pos d hneed] at h
        obtain ⟨i, hfirst, h⟩ := Option.bind_eq_some_iff.1 h
        obtain ⟨rest, hrest, rfl⟩ := Option.map_eq_some_iff.1 h
        have hpos := (of_first hfirst).2.1
        exact ⟨hfirst, ih _ (by omega) hrest⟩

theorem prologue_of_spells
    (h : d.Spells bytes address run) :
    d.prologue bytes address (runLength run) = some run := by
  induction run generalizing bytes address with
  | nil =>
      exact d.prologue_zero
  | cons i rest ih =>
      obtain ⟨hfirst, hrest⟩ := h
      have hpos := (of_first hfirst).2.1
      rw [runLength_cons, prologue_of_pos d (by omega), hfirst, Option.bind_some,
        Nat.add_sub_cancel_left, ih hrest]
      rfl

/-- Each instruction of a run was read somewhere. -/
theorem first_of_mem
    (h : d.Spells bytes address run) :
    ∀ i ∈ run, ∃ bytes address, d.first bytes address = some i := by
  induction run generalizing bytes address with
  | nil =>
      intro i hi
      cases hi
  | cons first rest ih =>
      intro i hi
      rcases List.mem_cons.1 hi with rfl | hi
      · exact ⟨bytes, address, h.1⟩
      · exact ih h.2 i hi

theorem le_address
    (h : d.Spells bytes address run) :
    ∀ i ∈ run, address ≤ i.address := by
  induction run generalizing bytes address with
  | nil =>
      intro i hi
      cases hi
  | cons first rest ih =>
      intro i hi
      rcases List.mem_cons.1 hi with rfl | hi
      · exact Nat.le_of_eq (of_first h.1).1.symm
      · have hrest := ih h.2 i hi
        omega

theorem runLength_le
    (h : d.Spells bytes address run) :
    runLength run ≤ bytes.length := by
  induction run generalizing bytes address with
  | nil =>
      exact Nat.zero_le _
  | cons first rest ih =>
      have hfirst := (of_first h.1).2.2
      have hrest := ih h.2
      rw [List.length_drop] at hrest
      rw [runLength_cons]
      omega

theorem finish_getLast
    (h : d.Spells bytes address run)
    (hrun : run ≠ []) :
    (run.getLast hrun).finish = address + runLength run := by
  induction run generalizing bytes address with
  | nil =>
      exact absurd rfl hrun
  | cons first rest ih =>
      obtain ⟨hfirst, hrest⟩ := h
      cases rest with
      | nil =>
          have hat := (of_first hfirst).1
          simp only [List.getLast_singleton, finish, hat, runLength_cons]
          rfl
      | cons second rest =>
          rw [List.getLast_cons (List.cons_ne_nil second rest),
            ih hrest (List.cons_ne_nil second rest), runLength_cons first, Nat.add_assoc]

end Decoder

end CallProfiler.Instruction
