import CallProfiler.Proofs.Code.Making
import CallProfiler.Proofs.Code.Restoration
import CallProfiler.Proofs.Memory.Requests

/-!
# What building a patch changes

A jumper's stub fills padding of one byte value, within 31 bytes in front of the function, and nothing
else; a moving patch changes nothing until it is switched on.  A refusal that comes when the stub is
already written refills the padding, so that no fault leaves a trace in the code.

**Main statements.**
* `Jumper.install_installed`: where the stub lies and what it replaced.
* `Patch.build_built`: a new patch is settled, and only its footprint changed; after a fault nothing
  of the code did.
-/

namespace CallProfiler.Code

open Memory
open Instruction (Decoder)

variable {d : Decoder} {code : Range} {m : Arena} {s t : Space} {allocate : BlockSource} {target : Nat}

/-- Whatever it is asked for, the source leaves the code alone and grants only blocks outside it. -/
def BlockSource.Avoids (allocate : BlockSource) (code : Range) : Prop :=
  ∀ (m : Arena) (size : Nat), m.Avoids code → m.Served code size (allocate m size)

/-- The allocators of an arena are such sources. -/
theorem avoids_allocate
    (code : Range) (id : Nat) :
    BlockSource.Avoids (fun m size => m.allocate id size) code :=
  fun _ size avoids => avoids.allocate id size

/-- The memory around the start of a function that its patch may be in need of: 32 bytes in front of it
and 15 bytes from it on. -/
def Surrounds (code : Range) (target : Nat) : Prop :=
  code.start + 32 ≤ target ∧ target + Instruction.maxLength ≤ code.finish

instance (code : Range) (target : Nat) : Decidable (Surrounds code target) :=
  inferInstanceAs (Decidable (_ ∧ _))

/-! ## Stubs -/

theorem stubSize_ofBytes
    {head : List UInt8} {address : Nat} {leading : Leading}
    (h : Leading.ofBytes head address d = .ok leading) :
    leading.stubSize ≤ 31 := by
  unfold Leading.ofBytes at h
  split at h
  · cases h
    simp [Leading.stubSize, longJumpSize]
  · split at h
    · cases h
    · next i hdecoded =>
        have hlength := Decoder.length_le_maxLength hdecoded
        split at h
        · cases h
        · split at h
          · cases h
          · cases h
            simp only [Instruction.maxLength] at hlength
            simp only [Leading.stubSize, longJumpSize, shortJumpSize]
            omega

theorem length_stub_le
    (head : List UInt8) (divertTo : Nat) (leading : Leading) :
    (leading.stub head divertTo).length ≤ leading.stubSize := by
  cases leading with
  | idle n =>
      simp [Leading.stub, Leading.stubSize, longJump, longJumpSize]
  | copied n =>
      simp only [Leading.stub, Leading.stubSize, longJump, longJumpSize, shortJump, shortJumpSize,
        List.length_append, List.length_take, List.length_cons, List.length_nil,
        Bytes.length_littleEndianBytes]
      omega

theorem eq_of_uniform?
    {bytes : List UInt8} {b c : UInt8}
    (h : uniform? bytes = some b)
    (hc : c ∈ bytes) :
    c = b := by
  cases bytes with
  | nil =>
      cases hc
  | cons first rest =>
      rw [uniform?] at h
      split at h
      · next hall =>
          cases h
          rcases List.mem_cons.mp hc with rfl | hc
          · rfl
          · exact of_decide_eq_true (List.all_eq_true.mp hall c hc)
      · cases h

/-- From memory `s` to memory `t` a stub was put in front of the function, in place of padding. -/
structure Jumper.Installed (s : Space) (target : Nat) (j : Jumper) (t : Space) : Prop where
  diverts : j.target = target
  inactive : j.active = false
  start : target ≤ j.padding.start + 31
  remembers : j.Remembers s
  same : ∀ x, j.padding.contains x = false → t.bytes x = s.bytes x
  regions : t.regions = s.regions

theorem Jumper.install_installed
    {divertTo : Nat} {j : Jumper}
    (room : 31 ≤ target)
    (h : Jumper.install s target divertTo d = .ok (j, t)) :
    j.Installed s target t := by
  obtain ⟨leading, hleading, h⟩ := bind_eq_ok.mp h
  have hsize := stubSize_ofBytes hleading
  simp only at h
  split at h
  · cases h
  · next filler hfiller =>
      obtain ⟨rfl, rfl⟩ := Prod.mk.inj (Except.ok.inj h)
      refine ⟨rfl, rfl, ?_, ⟨?_, rfl, ?_, fun no => by cases no⟩, ?_, rfl⟩
      · simp only
        omega
      · simp only
        omega
      · intro x hx
        rw [Range.contains_iff] at hx
        simp only at hx
        refine eq_of_uniform? hfiller (List.mem_map.mpr ⟨x - (target - leading.stubSize), ?_, ?_⟩)
        · rw [List.mem_range]
          omega
        · rw [show target - leading.stubSize + (x - (target - leading.stubSize)) = x by omega]
      · intro x hx
        have hstub := length_stub_le (s.read target Instruction.maxLength) divertTo leading
        rw [Range.contains_eq_false_iff] at hx
        simp only at hx
        refine s.bytes_write_outside ?_
        omega

/-- A jumper that was never switched on leaves the memory as it found it. -/
theorem Jumper.Installed.bytes_remove
    {j : Jumper} {x : Nat}
    (h : j.Installed s target t) :
    (j.remove t).bytes x = s.bytes x := by
  have hrevert : (j.revert t).2.2 = t := by
    simp [Jumper.revert, h.inactive]
  rw [Jumper.remove, hrevert]
  cases hpadding : j.padding.contains x with
  | true =>
      rw [Space.bytes_fill_inside _ hpadding]
      exact (h.remembers.filler x hpadding).symm
  | false =>
      rw [Space.bytes_fill_outside _ hpadding]
      exact h.same x hpadding

/-! ## Patches -/

/-- Code that fits its block is placed without touching the code of functions. -/
theorem agrees_place
    {block : Block} {placed : List UInt8}
    (fits : placed.length ≤ block.length)
    (apart : code.Apart (Range.ofLength block.address block.length)) :
    m.space.Agrees (place m block placed).space code := by
  intro x hx
  have houtside := apart x hx
  rw [Range.contains_eq_false_iff] at houtside
  simp only [Range.ofLength] at houtside
  refine m.space.bytes_write_outside ?_
  omega

/-- How building a patch in the arena `m` may end. -/
inductive Patch.Built (code : Range) (m : Arena) : Except Fault Patch → Arena → Prop
  /-- The code is as it was. -/
  | refused {fault : Fault} {m' : Arena} :
      m'.Avoids code →
      m.space.Agrees m'.space code →
      Patch.Built code m (.error fault) m'
  /-- Of the code only the footprint may have changed, and can be put back. -/
  | built {p : Patch} {m' : Arena} :
      m'.Avoids code →
      p.Settled m.space m'.space →
      (∀ x, p.footprint.contains x = true → code.contains x = true) →
      (∀ x, code.contains x = true → p.footprint.contains x = false →
        m'.space.bytes x = m.space.bytes x) →
      Patch.Built code m (.ok p) m'

namespace Patch.Built

variable {m' : Arena} {result : Except Fault Patch}

/-- What happened before without touching the code does not count. -/
theorem after
    {m₁ : Arena}
    (agrees : m.space.Agrees m₁.space code)
    (h : Patch.Built code m₁ result m') :
    Patch.Built code m result m' := by
  cases h with
  | refused havoids hagrees =>
      exact .refused havoids (agrees.trans hagrees)
  | built havoids hsettled hwithin hsame =>
      refine .built havoids (hsettled.of_same fun x hx => agrees x (hwithin x hx)) hwithin
        fun x hx hout => ?_
      rw [hsame x hx hout]
      exact agrees x hx

theorem freed
    {fault : Fault} {key : Nat}
    (avoids : m'.Avoids code)
    (agrees : m.space.Agrees m'.space code) :
    Patch.Built code m (.error fault) (m'.free key) := by
  refine .refused (avoids.free key) fun x hx => ?_
  rw [Arena.bytes_free]
  exact agrees x hx

end Patch.Built

namespace Jumper.Installed

variable {j : Jumper} {key : Nat} {block : Block}

theorem within
    (h : j.Installed s target t)
    (surrounds : Surrounds code target) :
    ∀ x, (Patch.jumper ⟨j, key, block⟩).footprint.contains x = true → code.contains x = true := by
  intro x hx
  have hdiverts := h.diverts
  have hstart := h.start
  obtain ⟨hfront, hbehind⟩ := surrounds
  rw [Patch.footprint, Range.contains_iff] at hx
  simp only [shortJumpSize] at hx
  simp only [Instruction.maxLength] at hbehind
  rw [Range.contains_iff]
  omega

/-- A jumper whose stub was just put in place changed the padding and nothing else. -/
theorem settled
    {u : Space}
    (h : j.Installed s target t)
    (surrounds : Surrounds code target)
    (agrees : t.Agrees u code) :
    (Patch.jumper ⟨j, key, block⟩).Settled s u := by
  refine ⟨h.remembers, fun x hin hout => ?_⟩
  rw [agrees x (h.within surrounds x hin)]
  refine h.same x ?_
  have hfinish := h.remembers.finish
  simp only [Patch.changed, h.inactive, Bool.false_eq_true, if_false,
    Range.contains_eq_false_iff] at hout
  rw [Range.contains_eq_false_iff, hfinish]
  exact hout

theorem same_outside
    {u : Space} {x : Nat}
    (h : j.Installed s target t)
    (agrees : t.Agrees u code)
    (hx : code.contains x = true)
    (outside : (Patch.jumper ⟨j, key, block⟩).footprint.contains x = false) :
    u.bytes x = s.bytes x := by
  have hfinish := h.remembers.finish
  rw [agrees x hx]
  refine h.same x ?_
  rw [Patch.footprint, Range.contains_eq_false_iff] at outside
  rw [Range.contains_eq_false_iff]
  simp only at outside
  omega

end Jumper.Installed

theorem JumperPatch.build_built
    (d : Decoder) (hooks : Hooks) (id : Nat)
    (avoids : m.Avoids code)
    (source : allocate.Avoids code)
    (surrounds : Surrounds code target) :
    Patch.Built code m ((JumperPatch.build m allocate hooks target id d).1.map .jumper)
      (JumperPatch.build m allocate hooks target id d).2 := by
  have hserved := source m Trampoline.size avoids
  have hroom := surrounds.1
  unfold JumperPatch.build
  generalize allocate m Trampoline.size = allocated at hserved
  obtain ⟨result, m₁⟩ := allocated
  have havoids : m₁.Avoids code := hserved.avoids
  refine .after hserved.agrees ?_
  cases result with
  | error fault =>
      exact .refused havoids (.refl m₁.space)
  | ok granted =>
      obtain ⟨key, block⟩ := granted
      simp only
      cases hinstall : Jumper.install m₁.space target block.address d with
      | error fault =>
          exact .freed havoids (.refl m₁.space)
      | ok stub =>
          obtain ⟨jumper, space⟩ := stub
          have hinstalled := Jumper.install_installed (by omega) hinstall
          simp only
          cases hrender : Trampoline.render block.address id hooks jumper.entry with
          | error fault =>
              -- the stub is written already: removal refills the padding
              have hregions : (jumper.remove space).regions = m₁.space.regions := by
                rw [← hinstalled.regions]
                simp [Jumper.remove, Jumper.revert, hinstalled.inactive]
              exact .freed (havoids.store hregions) fun x _ => hinstalled.bytes_remove
          | ok trampoline =>
              have hplaced : space.Agrees (place { m₁ with space } block trampoline).space code :=
                agrees_place
                  (by rw [Trampoline.length_render hrender]; exact hserved.enough key block rfl)
                  (hserved.apart key block rfl)
              exact .built ((havoids.store hinstalled.regions).store rfl)
                (hinstalled.settled surrounds hplaced) (hinstalled.within surrounds)
                fun x hx hout => hinstalled.same_outside hplaced hx hout

/-- Nothing of the code changes before a moving patch is switched on. -/
theorem MovingPatch.BuiltFrom.agrees
    {hooks : Hooks} {size id : Nat} {prologue : List Instruction} {placed : List UInt8} {granted : Arena}
    {p : MovingPatch}
    (h : BuiltFrom d m allocate hooks target size id prologue placed granted p)
    (near : d.NearBranchesLong)
    (avoids : m.Avoids code)
    (source : allocate.Avoids code) :
    granted.Avoids code ∧ m.space.Agrees (place granted p.block placed).space code := by
  have hserved := source m (Trampoline.size + (prologue.map (·.length)).sum + nearJumpSize) avoids
  rw [h.grant] at hserved
  have henough := hserved.enough p.key p.block rfl
  exact ⟨hserved.avoids, hserved.agrees.trans
    (agrees_place (Nat.le_trans (h.fits near).1 henough) (hserved.apart p.key p.block rfl))⟩

theorem MovingPatch.build_built
    (hooks : Hooks) (size id : Nat)
    (near : d.NearBranchesLong)
    (avoids : m.Avoids code)
    (source : allocate.Avoids code)
    (surrounds : Surrounds code target) :
    Patch.Built code m ((MovingPatch.build m allocate hooks target size id d).1.map .moving)
      (MovingPatch.build m allocate hooks target size id d).2 := by
  obtain ⟨hfront, hbehind⟩ := surrounds
  simp only [Instruction.maxLength] at hbehind
  have houtcome := MovingPatch.outcome_build d m allocate hooks target size id
  generalize MovingPatch.build m allocate hooks target size id d = outcome at houtcome ⊢
  cases houtcome with
  | tooShort | undecodable | pastEnd =>
      exact .refused avoids (.refl m.space)
  | @unserved prologue fault m' htakes hdenied =>
      have hserved := source m (Trampoline.size + (prologue.map (·.length)).sum + nearJumpSize) avoids
      rw [hdenied] at hserved
      exact .refused hserved.avoids hserved.agrees
  | @unmade prologue key block granted fault htakes hgrant hfault =>
      have hserved := source m (Trampoline.size + (prologue.map (·.length)).sum + nearJumpSize) avoids
      rw [hgrant] at hserved
      exact .freed hserved.avoids hserved.agrees
  | @built prologue placed granted p hbuilt =>
      obtain ⟨havoids, hagrees⟩ := hbuilt.agrees near avoids source
      have hwithin : ∀ x, (Patch.moving p).footprint.contains x = true → code.contains x = true := by
        intro x hx
        rw [Patch.footprint, hbuilt.target_eq, Range.contains_iff] at hx
        rw [Range.contains_iff]
        simp only [nearJumpSize] at hx
        omega
      exact .built (havoids.store rfl)
        ⟨⟨(hbuilt.fits near).2, fun on => by rw [hbuilt.active_eq] at on; cases on⟩,
          fun x hin _ => hagrees x (hwithin x hin)⟩
        hwithin fun x hx _ => hagrees x hx

/-- **Building a patch.**  A new patch remembers what its footprint held, and nothing else of the code
changed; after a fault nothing of the code did. -/
theorem Patch.build_built
    (hooks : Hooks) (size id : Nat)
    (near : d.NearBranchesLong)
    (avoids : m.Avoids code)
    (source : allocate.Avoids code)
    (surrounds : Surrounds code target) :
    Patch.Built code m (Patch.build m allocate hooks target size id d).1
      (Patch.build m allocate hooks target size id d).2 := by
  have hjumper := JumperPatch.build_built d hooks id avoids source surrounds
  unfold Patch.build
  generalize JumperPatch.build m allocate hooks target id d = tried at hjumper
  obtain ⟨result, m₁⟩ := tried
  cases result with
  | ok p =>
      exact hjumper
  | error fault =>
      cases fault with
      | jumper cause =>
          simp only
          split
          · exact hjumper
          · cases hjumper with
            | refused havoids hagrees =>
                have hmoving := MovingPatch.build_built hooks size id near havoids source surrounds
                generalize MovingPatch.build m₁ allocate hooks target size id d = made at hmoving
                obtain ⟨result, m₂⟩ := made
                refine .after hagrees ?_
                cases result with
                | ok p => exact hmoving
                | error fault => exact hmoving
      | _ =>
          exact hjumper

end CallProfiler.Code
