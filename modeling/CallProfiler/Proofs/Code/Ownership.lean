import CallProfiler.Proofs.Code.Diversion
import CallProfiler.Proofs.Memory.Blocks
import Mathlib.Logic.Relation

/-!
# The block of a patch

Building a patch takes a block, and what the attempts before it took is given back.  From then on the
block is the patch's own: as long as the patch is in memory, its jump leads there, and nothing but the end
of the patch gives the block back.

**Main statements.**
* `Patch.build_builds`: all that building a patch can come to, from which the rest is derived.
* `Patch.Builds.takes`: a new patch has a block of its own, and no other block is lost.
* `Patch.Builds.elsewhere`: code that is not around the function is left alone.
* `Patch.Formed.activate`, `Patch.Formed.revert`, `Patch.Formed.remove`: what a patch changes at all.
* `Patch.Builds.inscribed`, `Patch.Inscribed.activate`, `Patch.Inscribed.revert`: where a patch leads.
* `Patch.Inscribed.diverts`: while a patch is on, its function is diverted into its block.
-/

namespace CallProfiler.Code

open Memory Relation
open Instruction (Decoder)

variable {d : Decoder} {allocate : BlockSource} {code : Range} {m m' : Arena} {s t : Space} {p : Patch}
  {target : Nat}

/-! ## The shape of patches -/

/-- The padding ends at the function, within 31 bytes in front of it. -/
structure Jumper.Formed (j : Jumper) : Prop where
  start : j.padding.start ≤ j.target
  finish : j.padding.finish = j.target
  near : j.target ≤ j.padding.start + 31
  saved : j.active = true → j.saved.length = shortJumpSize

/-- The near jump and the bytes that it replaced are five bytes each. -/
structure MovingPatch.Formed (p : MovingPatch) : Prop where
  jump : p.jump.length = nearJumpSize
  saved : p.active = true → p.saved.length = nearJumpSize

/-- Whatever the patch stores, it stores in its footprint. -/
def Patch.Formed : Patch → Prop
  | jumper p => p.jumper.Formed
  | moving p => p.Formed

theorem Jumper.install_formed
    {divertTo : Nat} {j : Jumper}
    (h : Jumper.install s target divertTo d = .ok (j, t)) :
    j.Formed ∧ j.target = target ∧ j.active = false ∧ t.regions = s.regions ∧
      ∀ x, x < j.padding.start ∨ j.padding.start + 31 ≤ x → t.bytes x = s.bytes x := by
  obtain ⟨leading, hleading, h⟩ := bind_eq_ok.mp h
  have hsize := stubSize_ofBytes hleading
  have hstub := length_stub_le (s.read target Instruction.maxLength) divertTo leading
  simp only at h
  split at h
  · cases h
  · obtain ⟨rfl, rfl⟩ := Prod.mk.inj (Except.ok.inj h)
    refine ⟨⟨Nat.sub_le _ _, rfl, ?_, nofun⟩, rfl, rfl, rfl, fun x hx => s.bytes_write_outside ?_⟩
    · simp only
      omega
    · simp only at hx
      omega

/-- A change of a patch keeps what it is, and its memory outside the footprint. -/
structure Patch.Changes (s : Space) (p : Patch) (outcome : Bool × Patch × Space) : Prop where
  formed : outcome.2.1.Formed
  target : outcome.2.1.target = p.target
  footprint : outcome.2.1.footprint = p.footprint
  key : outcome.2.1.key = p.key
  block : outcome.2.1.block = p.block
  same : ∀ x, p.footprint.contains x = false → outcome.2.2.bytes x = s.bytes x
  regions : outcome.2.2.regions = s.regions

namespace Patch.Formed

theorem stays
    (h : p.Formed)
    (changed : Bool) :
    p.Changes s (changed, p, s) :=
  ⟨h, rfl, rfl, rfl, rfl, fun _ _ => rfl, rfl⟩

/-- The first bytes of the function belong to the footprint of a jumper. -/
theorem bytes_write_jumper
    {p : JumperPatch} {data : List UInt8} {x : Nat}
    (h : p.jumper.Formed)
    (hdata : data.length = shortJumpSize)
    (outside : (Patch.jumper p).footprint.contains x = false) :
    (s.write p.jumper.target data).bytes x = s.bytes x := by
  have hstart := h.start
  rw [footprint, Range.contains_eq_false_iff] at outside
  simp only at outside
  refine s.bytes_write_outside ?_
  omega

theorem bytes_writeEntry_moving
    {p : MovingPatch} {data : List UInt8} {x : Nat}
    (hdata : data.length = nearJumpSize)
    (outside : (Patch.moving p).footprint.contains x = false) :
    (writeEntry s p.target data).bytes x = s.bytes x := by
  rw [footprint, Range.contains_eq_false_iff] at outside
  simp only at outside
  rw [bytes_writeEntry s p.target hdata]
  refine s.bytes_write_outside ?_
  omega

theorem activate
    (h : p.Formed)
    (s : Space) :
    p.Changes s (p.activate s) := by
  cases hactive : p.active with
  | true =>
      rw [activate_of_active hactive]
      exact h.stays false
  | false =>
      cases p with
      | jumper p =>
          have hformed : p.jumper.Formed := h
          rw [activate_jumper hactive]
          exact ⟨⟨hformed.start, hformed.finish, hformed.near, fun _ => s.length_read _⟩, rfl, rfl, rfl,
            rfl, fun _ => bytes_write_jumper hformed (length_diversion _), rfl⟩
      | moving p =>
          have hformed : p.Formed := h
          rw [activate_moving hactive]
          exact ⟨⟨hformed.jump, fun _ => s.length_read _⟩, rfl, rfl, rfl, rfl,
            fun _ => bytes_writeEntry_moving hformed.jump, rfl⟩

theorem revert
    (h : p.Formed)
    (s : Space) :
    p.Changes s (p.revert s) := by
  cases hactive : p.active with
  | false =>
      rw [revert_of_inactive hactive]
      exact h.stays false
  | true =>
      cases p with
      | jumper p =>
          have hformed : p.jumper.Formed := h
          rw [revert_jumper hactive]
          exact ⟨⟨hformed.start, hformed.finish, hformed.near, nofun⟩, rfl, rfl, rfl, rfl,
            fun _ => bytes_write_jumper hformed (hformed.saved hactive), rfl⟩
      | moving p =>
          have hformed : p.Formed := h
          rw [revert_moving hactive]
          exact ⟨⟨hformed.jump, nofun⟩, rfl, rfl, rfl, rfl,
            fun _ => bytes_writeEntry_moving (hformed.saved hactive), rfl⟩

/-- Removal gives the block back, and stores in the footprint only. -/
theorem remove
    (h : p.Formed)
    (m : Arena) :
    ∃ space, p.remove m = { m with space }.free p.key ∧ space.regions = m.space.regions ∧
      ∀ x, p.footprint.contains x = false → space.bytes x = m.space.bytes x := by
  have hchanges := h.revert m.space
  cases p with
  | jumper p =>
      have hformed : p.jumper.Formed := h
      refine ⟨p.jumper.remove m.space, rfl, hchanges.regions, fun x hx => ?_⟩
      have houtside : p.jumper.padding.contains x = false := by
        have hfinish := hformed.finish
        rw [footprint, Range.contains_eq_false_iff] at hx
        rw [Range.contains_eq_false_iff]
        simp only at hx
        omega
      rw [Jumper.remove, Space.bytes_fill_outside _ houtside]
      exact hchanges.same x hx
  | moving p =>
      exact ⟨((Patch.moving p).revert m.space).2.2, rfl, hchanges.regions, hchanges.same⟩

end Patch.Formed

/-! ## Building -/

/-- An attempt to build a patch that came to nothing: there was no block for it, or the block was given
back. -/
inductive Attempt (allocate : BlockSource) (target : Nat) : Arena → Arena → Prop
  | unserved {m m' : Arena} {size : Nat} {fault : Memory.Fault} :
    allocate m size = (.error fault, m') → Attempt allocate target m m'
  /-- A stub that was written already is removed again. -/
  | returned {m m' : Arena} {size key : Nat} {block : Block} {space : Space} :
    allocate m size = (.ok (key, block), m') → space.regions = m'.space.regions →
    (32 ≤ target → space.bytes = m'.space.bytes) →
    Attempt allocate target m ({ m' with space }.free key)

/-- How building a patch of the function at `target` goes. -/
inductive Patch.Builds (d : Decoder) (allocate : BlockSource) (target : Nat) (m : Arena) :
    Except Fault Patch → Arena → Prop
  | refused {fault : Fault} {m' : Arena} :
    ReflTransGen (Attempt allocate target) m m' → Builds d allocate target m (.error fault) m'
  | jumper {m' : Arena} {key : Nat} {block : Block} {j : Jumper} {space : Space} {placed : List UInt8} :
    allocate m Trampoline.size = (.ok (key, block), m') →
    Jumper.install m'.space target block.address d = .ok (j, space) →
    placed.length = Trampoline.size →
    Builds d allocate target m (.ok (.jumper ⟨j, key, block⟩)) (place { m' with space } block placed)
  /-- The start of the function is moved, maybe after a jumper was refused. -/
  | moving {m₀ m' : Arena} {size key : Nat} {block : Block} {jump placed : List UInt8} :
    ReflTransGen (Attempt allocate target) m m₀ →
    allocate m₀ size = (.ok (key, block), m') →
    nearJump target block.address = .ok jump →
    placed.length ≤ size →
    Builds d allocate target m (.ok (.moving ⟨target, jump, [], false, key, block⟩)) (place m' block placed)

theorem JumperPatch.build_builds
    (d : Decoder) (allocate : BlockSource) (m : Arena) (hooks : Hooks) (target id : Nat) :
    Patch.Builds d allocate target m ((JumperPatch.build m allocate hooks target id d).1.map .jumper)
      (JumperPatch.build m allocate hooks target id d).2 := by
  unfold JumperPatch.build
  cases hallocate : allocate m Trampoline.size with
  | mk granted m' =>
      cases granted with
      | error fault =>
          exact .refused (.single (.unserved hallocate))
      | ok granted =>
          obtain ⟨key, block⟩ := granted
          simp only
          cases hinstall : Jumper.install m'.space target block.address d with
          | error fault =>
              exact .refused (.single (.returned hallocate rfl fun _ => rfl))
          | ok stub =>
              obtain ⟨j, space⟩ := stub
              simp only
              cases hrender : Trampoline.render block.address id hooks j.entry with
              | error fault =>
                  obtain ⟨hformed, -, hoff, hregions, -⟩ := Jumper.install_formed hinstall
                  refine .refused (.single (.returned hallocate ?_ fun room => funext fun x => ?_))
                  · rw [← hregions]
                    simp [Jumper.remove, Jumper.revert, hoff]
                  · exact (Jumper.install_installed (by omega) hinstall).bytes_remove
              | ok placed =>
                  exact .jumper hallocate hinstall (Trampoline.length_render hrender)

theorem MovingPatch.build_builds
    {m₀ : Arena} (hooks : Hooks) (size id : Nat)
    (near : d.NearBranchesLong)
    (before : ReflTransGen (Attempt allocate target) m m₀) :
    Patch.Builds d allocate target m ((MovingPatch.build m₀ allocate hooks target size id d).1.map .moving)
      (MovingPatch.build m₀ allocate hooks target size id d).2 := by
  have houtcome := MovingPatch.outcome_build d m₀ allocate hooks target size id
  generalize MovingPatch.build m₀ allocate hooks target size id d = outcome at houtcome ⊢
  cases houtcome with
  | tooShort | undecodable | pastEnd =>
      exact .refused before
  | unserved htakes hdenied =>
      exact .refused (before.tail (.unserved hdenied))
  | unmade htakes hgrant hfault =>
      exact .refused (before.tail (.returned hgrant rfl fun _ => rfl))
  | built hbuilt =>
      have hmoving := Patch.Builds.moving (d := d) before hbuilt.grant hbuilt.nearJump_eq (hbuilt.fits near).1
      rw [← hbuilt.new] at hmoving
      exact hmoving

/-- **All that building a patch can come to.** -/
theorem Patch.build_builds
    (near : d.NearBranchesLong)
    (allocate : BlockSource) (m : Arena) (hooks : Hooks) (target size id : Nat) :
    Patch.Builds d allocate target m (Patch.build m allocate hooks target size id d).1
      (Patch.build m allocate hooks target size id d).2 := by
  have hjumper := JumperPatch.build_builds d allocate m hooks target id
  unfold Patch.build
  generalize JumperPatch.build m allocate hooks target id d = tried at hjumper
  obtain ⟨result, m₀⟩ := tried
  cases result with
  | ok p =>
      exact hjumper
  | error fault =>
      cases fault with
      | jumper cause =>
          simp only
          split
          · exact hjumper
          · cases hjumper with
            | refused before =>
                have hmoving := MovingPatch.build_builds hooks size id near before
                generalize MovingPatch.build m₀ allocate hooks target size id d = made at hmoving
                obtain ⟨result, m'⟩ := made
                cases result with
                | ok p => exact hmoving
                | error fault => exact hmoving
      | _ =>
          exact hjumper

/-! ## The block -/

/-- Whatever it is asked for, the source grants new blocks and loses none. -/
def BlockSource.Grants (allocate : BlockSource) : Prop :=
  ∀ (m : Arena) (size : Nat), m.Tidy → m.Grants (allocate m size)

/-- The allocators of an arena are such sources. -/
theorem grants_allocate
    (id : Nat) :
    BlockSource.Grants fun m size => m.allocate id size :=
  fun _ size tidy => tidy.allocate id size

/-- What an attempt took is given back. -/
theorem Attempt.keeps
    (source : allocate.Grants)
    (tidy : m.Tidy)
    (h : Attempt allocate target m m') :
    m.Keeps m' := by
  cases h with
  | @unserved _ size fault hserved =>
      have hgrants := source m size tidy
      rw [hserved] at hgrants
      exact hgrants.toKeeps
  | @returned m' size key block space hserved hregions hbytes =>
      have hgrants := source m size tidy
      rw [hserved] at hgrants
      have hstored : m'.Keeps { m' with space } := hgrants.tidy.keeps rfl rfl rfl
      exact (hgrants.toKeeps.trans hstored).free tidy (hgrants.granted key block rfl).1

theorem Attempt.keeps_all
    (source : allocate.Grants)
    (tidy : m.Tidy)
    (h : ReflTransGen (Attempt allocate target) m m') :
    m.Keeps m' := by
  induction h with
  | refl => exact tidy.keeps rfl rfl rfl
  | tail _ hlast ih => exact ih.trans (hlast.keeps source ih.tidy)

/-- **A new patch has a block of its own**, and no other block is lost. -/
theorem Patch.Builds.takes
    {result : Except Fault Patch}
    (h : Patch.Builds d allocate target m result m')
    (source : allocate.Grants)
    (tidy : m.Tidy) :
    m.Keeps m' ∧ ∀ p, result = .ok p → m.next ≤ p.key ∧ (p.key, p.block) ∈ m'.blocks := by
  cases h with
  | refused before =>
      exact ⟨Attempt.keeps_all source tidy before, nofun⟩
  | @jumper m₁ key block j space placed hserved hinstall hlength =>
      have hgrants := source m Trampoline.size tidy
      rw [hserved] at hgrants
      obtain ⟨hkey, hmem⟩ := hgrants.granted key block rfl
      refine ⟨hgrants.toKeeps.trans (hgrants.tidy.keeps rfl rfl rfl), fun p hp => ?_⟩
      cases hp
      exact ⟨hkey, hmem⟩
  | @moving m₀ m₁ size key block jump placed before hserved hjump hlength =>
      have hearlier := Attempt.keeps_all source tidy before
      have hgrants := source m₀ size hearlier.tidy
      rw [hserved] at hgrants
      obtain ⟨hkey, hmem⟩ := hgrants.granted key block rfl
      have hplaced : m₁.Keeps (place m₁ block placed) := hgrants.tidy.keeps rfl rfl rfl
      refine ⟨(hearlier.trans hgrants.toKeeps).trans hplaced, fun p hp => ?_⟩
      cases hp
      exact ⟨Nat.le_trans hearlier.later hkey, hmem⟩

/-- What a new patch is. -/
theorem Patch.Builds.formed
    (h : Patch.Builds d allocate target m (.ok p) m') :
    p.Formed ∧ p.target = target ∧ p.active = false := by
  cases h with
  | jumper hserved hinstall hlength =>
      obtain ⟨hformed, htarget, hoff, -, -⟩ := Jumper.install_formed hinstall
      exact ⟨hformed, htarget, hoff⟩
  | moving before hserved hjump hlength =>
      exact ⟨⟨length_nearJump hjump, nofun⟩, rfl, rfl⟩

/-! ## Code away from the function -/

/-- The function is not near the code: 32 bytes in front of it and 15 bytes from it on are outside. -/
def Elsewhere (code : Range) (target : Nat) : Prop :=
  32 ≤ target ∧ (target + Instruction.maxLength ≤ code.start ∨ code.finish + 32 ≤ target)

instance (code : Range) (target : Nat) : Decidable (Elsewhere code target) :=
  inferInstanceAs (Decidable (_ ∧ _))

theorem Elsewhere.not_contains
    (h : Elsewhere code target) :
    code.contains target = false := by
  obtain ⟨-, hplace⟩ := h
  simp only [Instruction.maxLength] at hplace
  rw [Range.contains_eq_false_iff]
  omega

theorem Surrounds.contains
    (h : Surrounds code target) :
    code.contains target = true := by
  obtain ⟨hfront, hbehind⟩ := h
  simp only [Instruction.maxLength] at hbehind
  rw [Range.contains_iff]
  omega

/-- A patch that is not near the code stores nothing in it. -/
theorem Patch.Formed.footprint_elsewhere
    (h : p.Formed)
    (away : Elsewhere code p.target) :
    code.Apart p.footprint := by
  intro x hx
  obtain ⟨-, hplace⟩ := away
  rw [Range.contains_iff] at hx
  rw [Range.contains_eq_false_iff]
  simp only [Instruction.maxLength] at hplace
  cases p with
  | jumper p =>
      have hformed : p.jumper.Formed := h
      have hnear := hformed.near
      simp only [target] at hplace
      simp only [footprint, shortJumpSize]
      omega
  | moving p =>
      simp only [target] at hplace
      simp only [footprint, nearJumpSize]
      omega

theorem Attempt.elsewhere
    (source : allocate.Avoids code)
    (room : 32 ≤ target)
    (avoids : m.Avoids code)
    (h : Attempt allocate target m m') :
    m'.Avoids code ∧ m.space.Agrees m'.space code := by
  cases h with
  | @unserved _ size fault hserved =>
      have hcalled := source m size avoids
      rw [hserved] at hcalled
      exact ⟨hcalled.avoids, hcalled.agrees⟩
  | @returned m' size key block space hserved hregions hbytes =>
      have hcalled := source m size avoids
      rw [hserved] at hcalled
      refine ⟨(hcalled.avoids.store hregions).free key, fun x hx => ?_⟩
      simp only [Arena.bytes_free, hbytes room]
      exact hcalled.agrees x hx

theorem Attempt.elsewhere_all
    (source : allocate.Avoids code)
    (room : 32 ≤ target)
    (avoids : m.Avoids code)
    (h : ReflTransGen (Attempt allocate target) m m') :
    m'.Avoids code ∧ m.space.Agrees m'.space code := by
  induction h with
  | refl => exact ⟨avoids, .refl m.space⟩
  | tail _ hlast ih =>
      obtain ⟨havoids, hagrees⟩ := hlast.elsewhere source room ih.1
      exact ⟨havoids, ih.2.trans hagrees⟩

/-- **Other code is left alone** when a patch is built. -/
theorem Patch.Builds.elsewhere
    {result : Except Fault Patch}
    (h : Patch.Builds d allocate target m result m')
    (source : allocate.Avoids code)
    (away : Elsewhere code target)
    (avoids : m.Avoids code) :
    m'.Avoids code ∧ m.space.Agrees m'.space code := by
  obtain ⟨hroom, hplace⟩ := away
  simp only [Instruction.maxLength] at hplace
  cases h with
  | refused before =>
      exact Attempt.elsewhere_all source hroom avoids before
  | @jumper m₁ key block j space placed hserved hinstall hlength =>
      have hcalled := source m Trampoline.size avoids
      rw [hserved] at hcalled
      have hinstalled := Jumper.install_installed (by omega) hinstall
      have hstub : m₁.space.Agrees space code := by
        intro x hx
        have hstart := hinstalled.start
        have hfinish := hinstalled.remembers.finish
        have hdiverts := hinstalled.diverts
        rw [Range.contains_iff] at hx
        refine hinstalled.same x ?_
        rw [Range.contains_eq_false_iff]
        omega
      have hplaced : space.Agrees (place { m₁ with space } block placed).space code :=
        agrees_place (hlength ▸ hcalled.enough key block rfl) (hcalled.apart key block rfl)
      exact ⟨(hcalled.avoids.store hinstalled.regions).store rfl,
        (hcalled.agrees.trans hstub).trans hplaced⟩
  | @moving m₀ m₁ size key block jump placed before hserved hjump hlength =>
      obtain ⟨havoids, hagrees⟩ := Attempt.elsewhere_all source hroom avoids before
      have hcalled := source m₀ size havoids
      rw [hserved] at hcalled
      have hplaced : m₁.space.Agrees (place m₁ block placed).space code :=
        agrees_place (Nat.le_trans hlength (hcalled.enough key block rfl)) (hcalled.apart key block rfl)
      exact ⟨hcalled.avoids.store rfl, (hagrees.trans hcalled.agrees).trans hplaced⟩

/-! ## Where a patch leads -/

/-- From the start of a function execution goes to a destination: by a near jump, or by a short jump to a
long one. -/
def Diverts (s : Space) (target destination : Nat) : Prop :=
  nearJump target destination = .ok (s.read target nearJumpSize) ∨
    ∃ stub : Nat, s.read target shortJumpSize = shortJump ((stub : Int) - (target + shortJumpSize)) ∧
      s.read stub longJumpSize = longJump destination

/-- The stub leads to the block, and while it is on the function starts with the jump to the stub. -/
structure JumperPatch.Inscribed (s : Space) (p : JumperPatch) : Prop where
  room : p.jumper.padding.start + longJumpSize ≤ p.jumper.target
  stub : s.read p.jumper.padding.start longJumpSize = longJump p.block.address
  on : p.jumper.active = true → s.read p.jumper.target shortJumpSize = p.jumper.diversion

/-- The jump leads to the block, and while it is on the function starts with it. -/
structure MovingPatch.Inscribed (s : Space) (p : MovingPatch) : Prop where
  jump : nearJump p.target p.block.address = .ok p.jump
  on : p.active = true → s.read p.target nearJumpSize = p.jump

/-- The jumps of the patch are in memory. -/
def Patch.Inscribed (s : Space) : Patch → Prop
  | jumper p => p.Inscribed s
  | moving p => p.Inscribed s

namespace Patch.Inscribed

/-- **While a patch is on**, its function is diverted into its block. -/
theorem diverts
    (h : p.Inscribed s)
    (hactive : p.active = true) :
    Diverts s p.target p.block.address := by
  cases p with
  | jumper p =>
      have hinscribed : p.Inscribed s := h
      exact .inr ⟨p.jumper.padding.start, hinscribed.on hactive, hinscribed.stub⟩
  | moving p =>
      have hinscribed : p.Inscribed s := h
      refine .inl ?_
      rw [target, hinscribed.on hactive]
      exact hinscribed.jump

/-- What happens outside its footprint does not concern a patch. -/
theorem of_frame
    (h : p.Inscribed s)
    (same : ∀ x, p.footprint.contains x = true → t.bytes x = s.bytes x) :
    p.Inscribed t := by
  cases p with
  | jumper p =>
      have hinscribed : p.Inscribed s := h
      have hroom := hinscribed.room
      have hread : ∀ a count, p.jumper.padding.start ≤ a →
          a + count ≤ p.jumper.target + shortJumpSize → t.read a count = s.read a count := by
        intro a count hlow hhigh
        refine t.read_congr fun x hx => same x ?_
        rw [Range.contains_ofLength_iff] at hx
        rw [footprint, Range.contains_iff]
        simp only
        omega
      refine ⟨hroom, ?_, fun hactive => ?_⟩
      · rw [hread _ _ (Nat.le_refl _) (by omega)]
        exact hinscribed.stub
      · rw [hread _ _ (by omega) (Nat.le_refl _)]
        exact hinscribed.on hactive
  | moving p =>
      have hinscribed : p.Inscribed s := h
      refine ⟨hinscribed.jump, fun hactive => ?_⟩
      rw [t.read_congr same]
      exact hinscribed.on hactive

/-- The stub of a jumper stays when the first bytes of the function change. -/
theorem stub_write
    {p : JumperPatch}
    (h : p.Inscribed s)
    (data : List UInt8) :
    (s.write p.jumper.target data).read p.jumper.padding.start longJumpSize =
      longJump p.block.address := by
  rw [← h.stub]
  refine Space.read_congr _ fun x hx => s.bytes_write_outside (.inl ?_)
  have hroom := h.room
  rw [Range.contains_ofLength_iff] at hx
  omega

theorem activate
    (h : p.Inscribed s)
    (hformed : p.Formed) :
    (p.activate s).2.1.Inscribed (p.activate s).2.2 := by
  cases hactive : p.active with
  | true =>
      rw [activate_of_active hactive]
      exact h
  | false =>
      cases p with
      | jumper p =>
          have hinscribed : p.Inscribed s := h
          rw [activate_jumper hactive]
          exact ⟨hinscribed.room, stub_write hinscribed _, fun _ => s.read_write _ p.jumper.diversion⟩
      | moving p =>
          have hinscribed : p.Inscribed s := h
          have hlength : p.jump.length = nearJumpSize := MovingPatch.Formed.jump hformed
          rw [activate_moving hactive]
          refine ⟨hinscribed.jump, fun _ => ?_⟩
          have hsame : (writeEntry s p.target p.jump).read p.target nearJumpSize =
              (s.write p.target p.jump).read p.target nearJumpSize :=
            Space.read_congr _ fun x _ => bytes_writeEntry s p.target hlength
          rw [hsame, ← hlength]
          exact s.read_write p.target p.jump

theorem revert
    (h : p.Inscribed s) :
    (p.revert s).2.1.Inscribed (p.revert s).2.2 := by
  cases hactive : p.active with
  | false =>
      rw [revert_of_inactive hactive]
      exact h
  | true =>
      cases p with
      | jumper p =>
          have hinscribed : p.Inscribed s := h
          rw [revert_jumper hactive]
          exact ⟨hinscribed.room, stub_write hinscribed _, nofun⟩
      | moving p =>
          have hinscribed : p.Inscribed s := h
          rw [revert_moving hactive]
          exact ⟨hinscribed.jump, nofun⟩

end Patch.Inscribed

/-- The jumps of a new patch lead to its block. -/
theorem Patch.Builds.inscribed
    (h : Patch.Builds d allocate target m (.ok p) m')
    (source : allocate.Avoids code)
    (surrounds : Surrounds code target)
    (avoids : m.Avoids code) :
    p.Inscribed m'.space := by
  obtain ⟨hfront, hbehind⟩ := surrounds
  simp only [Instruction.maxLength] at hbehind
  cases h with
  | @jumper m₁ key block j space placed hserved hinstall hlength =>
      have hcalled := source m Trampoline.size avoids
      rw [hserved] at hcalled
      obtain ⟨leading, hplaced⟩ := Jumper.exists_placed (by omega) hinstall
      have hlong := leading.longJumpSize_le
      have hsize := stubSize_ofBytes hplaced.leads
      have hstart := hplaced.start
      have hdiverts := hplaced.diverts
      have hagrees : space.Agrees (place { m₁ with space } block placed).space code :=
        agrees_place (hlength ▸ hcalled.enough key block rfl) (hcalled.apart key block rfl)
      refine ⟨?_, ?_, ?_⟩
      · simp only
        omega
      · rw [← hplaced.longJump_read]
        refine Space.read_congr _ fun x hx => hagrees x ?_
        rw [Range.contains_ofLength_iff] at hx
        rw [Range.contains_iff]
        simp only at hx
        omega
      · intro hactive
        rw [hplaced.inactive] at hactive
        cases hactive
  | moving before hserved hjump hlength =>
      exact ⟨hjump, by simp⟩

end CallProfiler.Code
