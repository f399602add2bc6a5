import CallProfiler.Proofs.Code.InPlace
import CallProfiler.Proofs.Code.Reach

/-!
# The first bytes of a function are enough

Where the start of a function is moved, only its first twenty bytes are looked at: five for the jump, and as
many as the longest instruction has.  An instruction that is still needed begins with one of the first five
bytes, so what is read is the same as from the whole function and does not run past its end.  This holds for
any decoder, whatever instructions it knows.

**Main statements.**
* `prologue_window`: the first bytes and the whole function.
* `MovingPatch.code_not_pastEnd`: what keeps the code of a block from being made.
* `MovingPatch.prologues_end_in_function`: what is read, and the refusal that never comes.
-/

namespace CallProfiler.Code

open Memory Instruction

/-- **The first bytes of a function** that are looked at when its start is moved are as good as all of it. -/
theorem prologue_window
    (d : Decoder) (s : Space) (target size : Nat) :
    d.prologue (s.read target (min size (nearJumpSize + maxLength))) target nearJumpSize =
      d.prologue (s.read target size) target nearJumpSize := by
  have hwindow : s.read target (min size (nearJumpSize + maxLength)) =
      (s.read target size).take (nearJumpSize + maxLength) := by
    rw [← s.take_read target (Nat.min_le_left size _), List.take_eq_take_iff, s.length_read]
    omega
  rw [hwindow]
  exact d.prologue_take (by decide)

/-! ## Faults -/

/-- The leading instructions are said to run past the end of the function. -/
def Fault.PastEnd (f : Fault) : Prop := ∃ address, f = .immovable address .pastFunctionEnd

theorem displacement_not_pastEnd
    {origin target : Nat} {f : Fault}
    (h : displacement origin target = .error f) :
    ¬ f.PastEnd := by
  rw [(displacement_eq_error.1 h).2]
  rintro ⟨address, hpast⟩
  cases hpast

theorem nearJump_not_pastEnd
    {origin target : Nat} {f : Fault}
    (h : nearJump origin target = .error f) :
    ¬ f.PastEnd :=
  displacement_not_pastEnd (map_eq_error.1 h)

theorem moveInstruction_not_pastEnd
    {range : Range} {i : Instruction} {bytes : List UInt8} {address : Nat} {f : Fault}
    (h : moveInstruction range i bytes address = .error f) :
    ¬ f.PastEnd := by
  rintro ⟨a, rfl⟩
  unfold moveInstruction at h
  split at h
  · cases h
  · split at h
    · cases h
    · cases h
    · split at h
      · cases h
      · cases h
    · split at h
      · cases h
      · exact displacement_not_pastEnd (map_eq_error.1 h) ⟨a, rfl⟩

theorem moveRun_not_pastEnd
    {range : Range} {run : List Instruction} {bytes : List UInt8} {address : Nat} {f : Fault}
    (h : moveRun range address run bytes = .error f) :
    ¬ f.PastEnd := by
  induction run generalizing address bytes with
  | nil =>
      cases h
  | cons i rest ih =>
      rw [moveRun] at h
      rcases bind_eq_error.1 h with hfirst | ⟨moved, -, h⟩
      · exact moveInstruction_not_pastEnd hfirst
      · rcases bind_eq_error.1 h with hrest | ⟨more, -, h⟩
        · exact ih hrest
        · cases h

theorem Trampoline.render_not_pastEnd
    {base id entry : Nat} {hooks : Hooks} {f : Fault}
    (h : Trampoline.render base id hooks entry = .error f) :
    ¬ f.PastEnd := by
  rw [Trampoline.render, map_eq_error, replaceRelative] at h
  split at h
  · next hfault =>
      cases h
      obtain ⟨-, o, -, -, -, hfar⟩ := displacements_eq_error hfault
      exact displacement_not_pastEnd hfar
  · cases h

namespace MovingPatch

/-- **The code of a block** that cannot be made is refused for another reason. -/
theorem code_not_pastEnd
    {window : List UInt8} {prologue : List Instruction} {hooks : Hooks} {target id block : Nat} {f : Fault}
    (h : MovingPatch.code window prologue hooks target id block = .error f) :
    ¬ f.PastEnd := by
  simp only [MovingPatch.code] at h
  rcases bind_eq_error.1 h with hrender | ⟨trampoline, -, h⟩
  · exact Trampoline.render_not_pastEnd hrender
  rcases bind_eq_error.1 h with hmoved | ⟨moved, -, h⟩
  · exact moveRun_not_pastEnd hmoved
  rcases bind_eq_error.1 h with hback | ⟨back, -, h⟩
  · exact nearJump_not_pastEnd hback
  rcases bind_eq_error.1 h with hjump | ⟨jump, -, h⟩
  · exact nearJump_not_pastEnd hjump
  · cases h

/-! ## Building -/

theorem build_not_pastEnd
    {d : Decoder} {m : Arena} {allocate : BlockSource} {hooks : Hooks} {target size id : Nat} {f : Fault}
    (h : (MovingPatch.build m allocate hooks target size id d).1 = .error f) :
    ¬ f.PastEnd := by
  rintro ⟨address, rfl⟩
  have houtcome := outcome_build d m allocate hooks target size id
  generalize MovingPatch.build m allocate hooks target size id d = outcome at houtcome h
  cases houtcome with
  | tooShort | undecodable | unserved | built =>
      cases h
  | @pastEnd prologue hlong hread hpast =>
      rw [prologue_window] at hread
      have hwithin : (prologue.map (·.length)).sum ≤ (m.space.read target size).length :=
        (d.covers_prologue hread).within
      rw [Space.length_read] at hwithin
      exact absurd hwithin (Nat.not_le.2 hpast)
  | unmade htakes hgrant hfault =>
      cases h
      exact code_not_pastEnd hfault ⟨address, rfl⟩

/-- **A prologue ends in its function.**  Whatever decoder is used, the first twenty bytes of a function are
enough: from them the same instructions are read as from all its bytes.  They lie one behind the other from
the start of the function, cover at least five bytes, fewer than five without the last of them, and no more
than the function has; so no patch is refused because they run past its end.  The decoder of every mode is
one of those. -/
theorem prologues_end_in_function
    (d : Decoder) (m : Arena) (allocate : BlockSource) (hooks : Hooks) (target size id : Nat) :
    let window := m.space.read target (min size (nearJumpSize + maxLength))
    d.prologue window target nearJumpSize =
      d.prologue (m.space.read target size) target nearJumpSize ∧
    (∀ run, d.prologue window target nearJumpSize = some run →
      Contiguous target run ∧ nearJumpSize ≤ runLength run ∧
        runLength run.dropLast < nearJumpSize ∧ runLength run ≤ size) ∧
    (∀ address,
      (MovingPatch.build m allocate hooks target size id d).1 ≠
        .error (.immovable address .pastFunctionEnd)) ∧
    ∀ bytes address mode need,
      decodePrologue bytes address mode need = (Decoder.ofMode mode).prologue bytes address need := by
  intro window
  refine ⟨prologue_window d m.space target size, fun run hrun => ?_, fun address hpast => ?_,
    fun _ _ _ _ => rfl⟩
  · rw [prologue_window] at hrun
    have hcovers := d.covers_prologue hrun
    rw [Space.length_read] at hcovers
    exact ⟨hcovers.contiguous, hcovers.enough, hcovers.least (by decide), hcovers.within⟩
  · exact build_not_pastEnd hpast ⟨address, rfl⟩

/-- An instruction of fifteen bytes begins with the last of the five bytes; it ends in front of the last of
the twenty bytes that are looked at. -/
theorem prologues_end_in_function_longest :
    let m := paged [0x55, 0x48, 0x89, 0xE5, 0x64, 0x67, 0xF0, 0x48, 0x81, 0x84, 0x88, 1, 2, 3, 4, 5, 6, 7, 8,
      0xC3, 0x90, 0x90]
    ∃ run,
      decodePrologue (m.space.read 0x100000000100 20) 0x100000000100 .bits64 5 = some run ∧
        decodePrologue (m.space.read 0x100000000100 22) 0x100000000100 .bits64 5 = some run ∧
        runLength run = 19 ∧ Contiguous 0x100000000100 run ∧ runLength run.dropLast < 5 ∧
        ∀ address, (MovingPatch.build m (fun m n => m.allocate 0 n) ⟨1, 2, 3⟩ 0x100000000100 22 7).1 ≠
          .error (.immovable address .pastFunctionEnd) := by
  intro m
  have hread : decodePrologue (m.space.read 0x100000000100 20) 0x100000000100 .bits64 5 =
      some [⟨0x100000000100, 1, .free, .next, .other⟩, ⟨0x100000000101, 3, .free, .next, .other⟩,
        ⟨0x100000000104, 15, .free, .next, .other⟩] := by
    cbv
  obtain ⟨hwindow, hcovers, hpast, hmode⟩ := prologues_end_in_function (.ofMode .bits64) m
    (fun m n => m.allocate 0 n) ⟨1, 2, 3⟩ 0x100000000100 22 7
  rw [← hmode, ← hmode] at hwindow
  obtain ⟨hcontiguous, -, hleast, -⟩ := hcovers _ ((hmode ..).symm.trans hread)
  exact ⟨_, hread, hwindow.symm.trans hread, rfl, hcontiguous, hleast, hpast⟩

end MovingPatch

end CallProfiler.Code
