import CallProfiler.Proofs.Code.Making
import CallProfiler.Proofs.Code.Moving
import CallProfiler.Proofs.Memory.Reach
import Mathlib.Control.Monad.Basic

/-!
# Trampolines are within reach of their functions

A displacement is counted from behind the operand that holds it, up to four bytes beyond the bytes whose
distance the allocator keeps, and may be as long as `2 ^ 31` in one direction only.  As the ends of a
block and of its reference keep the distance too, the call of a trampoline, the jump to its block and the
jump back have displacements whatever block is granted; only a branch that is moved into the block may
turn out to lead too far.  This does not depend on the decoder.

**Main statements.**
* `exists_displacement_of_near`: displacements between a block and its reference, in both directions.
* `Trampoline.exists_render`: placing a trampoline.
* `blocks_keep_within_displacement`: building patches with an allocator for displacements.
-/

namespace CallProfiler.Code

open Memory
open Instruction (Decoder)

/-! ## Displacements that fit -/

theorem distance_eq
    {origin target : Nat}
    (horigin : origin < 2 ^ 63)
    (htarget : target < 2 ^ 63) :
    distance origin target = (target : Int) - origin := by
  unfold distance
  simp only [Int.bmod_def]
  omega

theorem exists_displacement
    {origin target : Nat}
    (horigin : origin < 2 ^ 63)
    (htarget : target < 2 ^ 63)
    (hdown : origin ≤ target + 2 ^ 31)
    (hup : target < origin + 2 ^ 31) :
    ∃ data, displacement origin target = .ok data := by
  cases hdata : displacement origin target with
  | error f =>
      obtain ⟨hfar, -⟩ := displacement_eq_error.1 hdata
      rw [distance_eq horigin htarget] at hfar
      exact absurd ⟨by omega, by omega⟩ hfar
  | ok data =>
      exact ⟨data, rfl⟩

/-- From either range, its end included, to the other. -/
theorem exists_displacement_of_near
    {block reference : Range} {a b : Nat}
    (h : block.Near reference)
    (ha : block.start ≤ a ∧ a ≤ block.finish)
    (hb : reference.start ≤ b ∧ b ≤ reference.finish) :
    (∃ data, displacement a b = .ok data) ∧ ∃ data, displacement b a = .ok data := by
  have habove := h.above
  have hbelow := h.below
  have hmappable := h.mappable
  simp only [Space.userLimit, pageSize] at hmappable
  constructor
  · exact exists_displacement (by omega) (by omega) (by omega) (by omega)
  · exact exists_displacement (by omega) (by omega) (by omega) (by omega)

/-! ## Trampolines -/

theorem bind_eq_error
    {ε α β : Type} {x : Except ε α} {f : α → Except ε β} {e : ε} :
    (x >>= f) = .error e ↔ x = .error e ∨ ∃ a, x = .ok a ∧ f a = .error e := by
  cases x with
  | error e' =>
      simp [bind, Except.bind]
  | ok a =>
      simp [bind, Except.bind]

/-- The fault is that of the first displacement that does not fit. -/
theorem displacements_eq_error
    {base target : Nat} {offsets : List Nat} {f : Fault}
    (h : displacements base target offsets = .error f) :
    ∃ before o after, offsets = before ++ o :: after ∧
      (∀ earlier ∈ before, ∃ data, displacement (base + earlier + 4) target = .ok data) ∧
      displacement (base + o + 4) target = .error f := by
  induction offsets with
  | nil =>
      cases h
  | cons offset rest ih =>
      rw [displacements] at h
      rcases bind_eq_error.1 h with hfar | ⟨data, hdata, h⟩
      · exact ⟨[], offset, rest, rfl, fun _ hmem => absurd hmem List.not_mem_nil, hfar⟩
      · rcases bind_eq_error.1 h with hmore | ⟨more, -, h⟩
        · obtain ⟨before, o, after, rfl, hfits, hfar⟩ := ih hmore
          exact ⟨offset :: before, o, after, rfl, List.forall_mem_cons.2 ⟨⟨data, hdata⟩, hfits⟩, hfar⟩
        · cases h

namespace Trampoline

/-- A trampoline is placed if its code may be entered from all of it; this is more than the one call, as
the scan for the call's operand may find other bytes too. -/
theorem exists_render
    {base entry : Nat}
    (id : Nat) (hooks : Hooks)
    (hreach : ∀ o ≤ size, ∃ data, displacement (base + o) entry = .ok data) :
    ∃ code, render base id hooks entry = .ok code := by
  cases hrender : render base id hooks entry with
  | ok code =>
      exact ⟨code, rfl⟩
  | error f =>
      rw [render, map_eq_error, replaceRelative] at hrender
      split at hrender
      · next fault hfault =>
          obtain ⟨before, o, after, hoffsets, -, hfar⟩ := displacements_eq_error hfault
          have hfits := occurrences_fit o (hoffsets ▸ List.mem_append_right before List.mem_cons_self)
          have htemplate := length_template_le
          simp only [relativeSlot, Bytes.length_littleEndianBytes, length_replaceAbsolute] at hfits
          obtain ⟨data, hdata⟩ := hreach (o + 4) (Nat.le_trans hfits htemplate)
          rw [Nat.add_assoc, hdata] at hfar
          cases hfar
      · cases hrender

end Trampoline

/-! ## Patches -/

/-- The bytes of the instructions that a jumper deals with. -/
def Leading.length : Leading → Nat
  | idle n => n
  | copied n => n

/-- The padding that a jumper takes in front of the function, and the start of the function that it deals
with, lie in the range. -/
structure Leading.LiesIn (leading : Leading) (target : Nat) (range : Range) : Prop where
  padding : range.start + leading.stubSize ≤ target
  head : target + leading.length ≤ range.finish

theorem Leading.LiesIn.entry
    {leading : Leading} {target : Nat} {range : Range}
    (h : leading.LiesIn target range) :
    range.start ≤ leading.entry target ∧ leading.entry target ≤ range.finish := by
  obtain ⟨hpadding, hhead⟩ := h
  cases leading with
  | idle n =>
      simp only [Leading.stubSize, Leading.length, Leading.entry] at *
      omega
  | copied n =>
      simp only [Leading.stubSize, Leading.length, Leading.entry, longJumpSize, shortJumpSize] at *
      omega

theorem Jumper.leading_of_install
    {d : Decoder} {s t : Space} {target divertTo : Nat} {j : Jumper}
    (h : Jumper.install s target divertTo d = .ok (j, t)) :
    ∃ leading, Leading.ofBytes (s.read target Instruction.maxLength) target d = .ok leading ∧
      j.entry = leading.entry target := by
  obtain ⟨leading, hleading, h⟩ := bind_eq_ok.1 h
  refine ⟨leading, hleading, ?_⟩
  simp only at h
  split at h
  · cases h
  · cases h
    rfl

variable {d : Decoder} {m : Arena} {allocate : BlockSource} {reference : Range}

/-- The blocks that are handed out are near the reference and long enough. -/
def HandsOutNear (m : Arena) (allocate : BlockSource) (reference : Range) : Prop :=
  ∀ size key block, (allocate m size).1 = .ok (key, block) →
    (Range.ofLength block.address block.length).Near reference ∧ size ≤ block.length

/-- A jumper's trampoline is within reach. -/
theorem JumperPatch.build_in_range
    (h : HandsOutNear m allocate reference)
    (hooks : Hooks) {target : Nat} (id : Nat)
    (hlies : ∀ leading,
      Leading.ofBytes ((allocate m Trampoline.size).2.space.read target Instruction.maxLength) target d =
        .ok leading →
      leading.LiesIn target reference)
    (origin goal : Nat) :
    (JumperPatch.build m allocate hooks target id d).1 ≠ .error (.outOfRange origin goal) := by
  rw [JumperPatch.build]
  cases hallocate : allocate m Trampoline.size with
  | mk result m' =>
      cases result with
      | error fault =>
          exact fun hfault => by cases hfault
      | ok granted =>
          obtain ⟨key, block⟩ := granted
          obtain ⟨hnear, hroom⟩ := h Trampoline.size key block (by rw [hallocate])
          simp only
          cases hinstall : Jumper.install m'.space target block.address d with
          | error fault =>
              exact fun hfault => by cases hfault
          | ok installed =>
              obtain ⟨j, space⟩ := installed
              obtain ⟨leading, hleading, hentry⟩ := Jumper.leading_of_install hinstall
              have hlie := hlies leading (by rw [hallocate]; exact hleading)
              have hreach : ∀ o ≤ Trampoline.size,
                  ∃ data, displacement (block.address + o) j.entry = .ok data := fun o ho =>
                (exists_displacement_of_near hnear
                  ⟨Nat.le_add_right _ _, Nat.add_le_add_left (Nat.le_trans ho hroom) _⟩
                  (hentry ▸ hlie.entry)).1
              obtain ⟨code, hcode⟩ := Trampoline.exists_render id hooks hreach
              simp only [hcode]
              exact fun hfault => by cases hfault

/-- What a moving patch needs has displacements that fit: the call of the moved instructions, the jump from
behind them back into the function, and the jump from the function to the block. -/
structure MovingPatch.Reaches (hooks : Hooks) (target id block length : Nat) : Prop where
  call : ∃ trampoline, Trampoline.render block id hooks (block + Trampoline.size) = .ok trampoline
  back : ∃ back, nearJump (block + Trampoline.size + length) (target + length) = .ok back
  jump : ∃ jump, nearJump target block = .ok jump

namespace MovingPatch

/-- The jump at an address, if the displacement that is counted from behind it fits. -/
theorem exists_nearJump
    {origin target : Nat}
    (h : ∃ data, displacement (origin + nearJumpSize) target = .ok data) :
    ∃ jump, nearJump origin target = .ok jump := by
  obtain ⟨data, hdata⟩ := h
  exact ⟨0xE9 :: data, map_eq_ok.2 ⟨data, hdata, rfl⟩⟩

theorem reaches_of_near
    {block : Block} {target length : Nat}
    (hnear : (Range.ofLength block.address block.length).Near reference)
    (hroom : Trampoline.size + length + nearJumpSize ≤ block.length)
    (htarget : reference.start ≤ target)
    (hjump : target + nearJumpSize ≤ reference.finish)
    (hback : target + length ≤ reference.finish)
    (hooks : Hooks) (id : Nat) :
    Reaches hooks target id block.address length := by
  have hmappable := hnear.mappable
  simp only [Range.ofLength, Space.userLimit, pageSize] at hmappable
  have hsize : Trampoline.size = 272 := by decide +kernel
  refine ⟨Trampoline.exists_render id hooks fun o ho => ?_, exists_nearJump ?_, exists_nearJump ?_⟩
  · exact exists_displacement (by omega) (by omega) (by omega) (by omega)
  · refine (exists_displacement_of_near hnear ⟨?_, ?_⟩ ⟨?_, hback⟩).1
    · simp only [Range.ofLength]
      omega
    · simp only [Range.ofLength]
      omega
    · omega
  · exact (exists_displacement_of_near hnear ⟨Nat.le_refl _, Nat.le_add_right _ _⟩
      ⟨Nat.le_trans htarget (Nat.le_add_right _ _), hjump⟩).2

/-- Where everything reaches, the moved instructions alone decide. -/
theorem Reaches.code
    {hooks : Hooks} {target id block : Nat} {prologue : List Instruction} {f : Fault}
    (h : Reaches hooks target id block (prologue.map (·.length)).sum)
    {window : List UInt8}
    (hcode : MovingPatch.code window prologue hooks target id block = .error f) :
    moveInstructions window prologue (block + Trampoline.size) = .error f := by
  obtain ⟨⟨trampoline, hcall⟩, ⟨back, hback⟩, ⟨jump, hjump⟩⟩ := h
  cases hmoved : moveInstructions window prologue (block + Trampoline.size) with
  | error f' =>
      simp only [MovingPatch.code, hcall, hmoved] at hcode
      cases hcode
      rfl
  | ok moved =>
      simp only [MovingPatch.code, hcall, hmoved, hback, hjump] at hcode
      cases hcode

/-- A block was granted and everything that the patch needs in it reaches, but moving the instructions ends
in the fault. -/
def FailsToMove (d : Decoder) (m : Arena) (allocate : BlockSource) (hooks : Hooks) (target size id : Nat)
    (f : Fault) : Prop :=
  ∃ prologue key block,
    let window := m.space.read target (min size (nearJumpSize + Instruction.maxLength))
    let length := (prologue.map (·.length)).sum
    d.prologue window target nearJumpSize = some prologue ∧
      (allocate m (Trampoline.size + length + nearJumpSize)).1 = .ok (key, block) ∧
      Reaches hooks target id block.address length ∧
      moveInstructions window prologue (block.address + Trampoline.size) = .error f

/-- A displacement of a moving patch that does not fit is that of a moved branch. -/
theorem build_in_range
    (h : HandsOutNear m allocate reference)
    {hooks : Hooks} {target size id origin goal : Nat}
    (htarget : reference.start ≤ target)
    (hend : target + size ≤ reference.finish)
    (hfault : (MovingPatch.build m allocate hooks target size id d).1 = .error (.outOfRange origin goal)) :
    FailsToMove d m allocate hooks target size id (.outOfRange origin goal) := by
  have houtcome := outcome_build d m allocate hooks target size id
  generalize MovingPatch.build m allocate hooks target size id d = outcome at houtcome hfault
  cases houtcome with
  | tooShort | undecodable | pastEnd | unserved | built =>
      cases hfault
  | @unmade prologue key block granted fault htakes hgrant hcode =>
      cases hfault
      have hgrant := congrArg Prod.fst hgrant
      have hlong := htakes.long
      have hwhole := htakes.whole
      obtain ⟨hnear, hroom⟩ := h _ key block hgrant
      have hreaches := reaches_of_near hnear hroom htarget (by omega) (by omega) hooks id
      exact ⟨prologue, key, block, htakes.read, hgrant, hreaches, hreaches.code hcode⟩

end MovingPatch

/-! ## Allocators for displacements -/

/-- **Blocks keep within displacements.**  In any memory, whatever other requests are made and whatever
happens to memory before and after, an allocator that is made for displacements, with reservations of
whole pages, hands out blocks all bytes of which are less than `2 ^ 31` away from all bytes of the pages
of its reference.  So for a function that lies with its padding in these pages no patch is refused for a
displacement that does not fit, unless it is that of a branch among the moved instructions, whatever decoder
reads them. -/
theorem blocks_keep_within_displacement
    (d : Decoder) (space : Space) (before after : List Arena.Event)
    (reference : Range) {blockSize : Nat}
    (hpages : pageSize ∣ blockSize) :
    let created :=
      (Arena.run { space } before).createAllocator reference Allocator.displacementOrder blockSize
    let m := created.2.run after
    let allocate : BlockSource := fun m size => m.allocate created.1 size
    (∀ size key block, (allocate m size).1 = .ok (key, block) →
      ∀ a b, (Range.ofLength block.address block.length).contains a = true →
        reference.pages.contains b = true →
        ((a : Int) - b).natAbs < 2 ^ 31) ∧
    (∀ hooks target id,
      (∀ leading,
        Leading.ofBytes ((allocate m Trampoline.size).2.space.read target Instruction.maxLength) target d =
          .ok leading →
        leading.LiesIn target reference.pages) →
      ∀ origin goal,
        (JumperPatch.build m allocate hooks target id d).1 ≠ .error (.outOfRange origin goal)) ∧
    ∀ hooks target size id,
      reference.pages.start ≤ target → target + size ≤ reference.pages.finish →
      ∀ origin goal,
        (MovingPatch.build m allocate hooks target size id d).1 = .error (.outOfRange origin goal) →
        MovingPatch.FailsToMove d m allocate hooks target size id (.outOfRange origin goal) := by
  intro created m allocate
  have hcreated : created.2.Places created.1 reference blockSize :=
    .created ((Arena.Numbered.start space).run before) reference blockSize
  have hplaces : m.Places created.1 reference blockSize := hcreated.run hpages after
  have hnear : HandsOutNear m allocate reference.pages :=
    fun size key block hgrant => hplaces.near_block hpages hgrant
  refine ⟨?_, ?_, ?_⟩
  · intro size key block hgrant a b ha hb
    exact (hnear size key block hgrant).1.distance_lt ha hb
  · intro hooks target id hlies origin goal
    exact JumperPatch.build_in_range hnear hooks id hlies origin goal
  · intro hooks target size id htarget hend origin goal hfault
    exact MovingPatch.build_in_range hnear htarget hend hfault

/-- All memory above the reference is occupied beyond reach, so that the reservation is taken below; when
all memory is cleared, the next block is carved from it nevertheless. -/
theorem blocks_keep_within_displacement_below :
    let space : Space :=
      { Space.empty with
        regions := [⟨⟨0x40000000, 0x40002000⟩, .all⟩, ⟨⟨0x40002000, 0x140002000⟩, .all⟩] }
    let reference : Range := ⟨0x40000100, 0x40001F00⟩
    let created :=
      (Arena.run { space } []).createAllocator reference Allocator.displacementOrder 0x10000
    let m := created.2.run [.allocate 0 300, .remap .empty]
    let allocate : BlockSource := fun m size => m.allocate created.1 size
    (allocate m 100).1 = .ok (3, ⟨0x3FFF0130, 112, 1⟩) ∧
      (∀ b, reference.pages.contains b = true → ((0x3FFF0130 : Nat) - (b : Int)).natAbs < 2 ^ 31) ∧
      ∀ origin goal,
        (JumperPatch.build m allocate ⟨1, 2, 3⟩ 0x40001000 7).1 ≠ .error (.outOfRange origin goal) := by
  intro space reference created m allocate
  have hgrant : (allocate m 100).1 = .ok (3, ⟨0x3FFF0130, 112, 1⟩) := by decide +kernel
  have hleading : Leading.ofBytes
      ((allocate m Trampoline.size).2.space.read 0x40001000 Instruction.maxLength) 0x40001000 =
        .ok (.copied 2) := by
    decide +kernel
  obtain ⟨hnear, hjumper, -⟩ :=
    blocks_keep_within_displacement (.ofMode .bits64) space [] [.allocate 0 300, .remap .empty] reference
      (show pageSize ∣ 0x10000 by decide)
  refine ⟨hgrant, fun b hb => ?_, hjumper ⟨1, 2, 3⟩ 0x40001000 7 fun leading h => ?_⟩
  · exact hnear 100 3 _ hgrant 0x3FFF0130 b (by decide) hb
  · cases hleading.symm.trans h
    exact ⟨by decide, by decide⟩

end CallProfiler.Code
