import CallProfiler.Proofs.Image.Upkeep

/-!
# Blocks are kept as long as code leads into them

Since a module was mapped its functions are patched by registries that come and go.  A patch of the module
is removed while its code is writable, so that the code is as it was before the block is given back; it is
given up, with the code left as it is, when the mapping is reported to go away, or at the end of a
registry when code cannot be made writable.  So as long as the mapping is there, and code is never refused
at the end of a registry, no function leads into a block that was given back.

**Main statements.**
* `Machine.Left`: patches that were there before; in each phase of an act patches only end, or only begin.
* `Kept.ends`, `Kept.builds`: what each phase keeps; `Station.Goes.kept`: what every act keeps.
* `Station.kept_concat`: what holds of the code of a module after one more act of a run.
* `Station.diverted_code_keeps_its_block`: code that differs leads into a block in use.
* `Station.refused_close_leaves_code_astray`: where code is refused at the end of a registry, a function
  goes on leading into memory that is gone.
-/

namespace CallProfiler.Image

open Memory Relation
open Instruction (Decoder)

variable {d : Decoder} {code : Range} {first : Space}

namespace Machine

variable {m m' m'' : Machine}

/-! ## Patches that were there -/

/-- Every patch of the second machine is one of the first, at its place. -/
def Left (m m' : Machine) : Prop :=
  ∀ n p, m'.patch? n = some p →
    ∃ p', m.patch? n = some p' ∧ p.target = p'.target ∧ p.footprint = p'.footprint

namespace Left

theorem refl
    (m : Machine) :
    m.Left m :=
  fun _ p hp => ⟨p, hp, rfl, rfl⟩

theorem trans
    (h : m.Left m')
    (h' : m'.Left m'') :
    m.Left m'' := by
  intro n p hp
  obtain ⟨p', hp', htarget, hfootprint⟩ := h' n p hp
  obtain ⟨p'', hp'', htarget', hfootprint'⟩ := h n p' hp'
  exact ⟨p'', hp'', htarget.trans htarget', hfootprint.trans hfootprint'⟩

/-- Patches that do not overlap do not come to overlap when others end. -/
theorem apart
    (h : m.Left m')
    (apart : (m.within code).Apart) :
    (m'.within code).Apart := by
  intro j k p q hjk hp hq
  obtain ⟨hp, hpin⟩ := live_within.1 hp
  obtain ⟨hq, hqin⟩ := live_within.1 hq
  obtain ⟨p', hp', htarget, hfootprint⟩ := h j p hp
  obtain ⟨q', hq', htarget', hfootprint'⟩ := h k q hq
  rw [hfootprint, hfootprint']
  exact apart j k p' q' hjk (live_within.2 ⟨hp', htarget ▸ hpin⟩) (live_within.2 ⟨hq', htarget' ▸ hqin⟩)

theorem of_quiet
    (h : m.Quiet m') :
    m.Left m' ∧ m'.Left m :=
  ⟨fun _ p hp => ⟨p, h.same ▸ hp, rfl, rfl⟩, fun _ p hp => ⟨p, h.same ▸ hp, rfl, rfl⟩⟩

/-- A patch is switched. -/
theorem switch
    {f : Space → Code.Patch → Bool × Code.Patch × Space}
    (owning : m.Owning)
    (hf : ∀ (s : Space) (p : Code.Patch), p.Formed → p.Changes s (f s p))
    (n : Nat) :
    m.Left (m.switch f n) ∧ (m.switch f n).Left m := by
  have hchange : ∀ p, m.patch? n = some p → p.Changes m.arena.space (f m.arena.space p) :=
    fun p hp => hf m.arena.space p (owning.formed n p hp)
  constructor
  · intro k p hp
    rw [patch?_switch] at hp
    split at hp
    · next hk =>
        obtain ⟨p', hp', rfl⟩ := Option.map_eq_some_iff.1 hp
        exact ⟨p', hk ▸ hp', (hchange p' hp').target, (hchange p' hp').footprint⟩
    · exact ⟨p, hp, rfl, rfl⟩
  · intro k p hp
    by_cases hk : k = n
    · have hp' : m.patch? n = some p := hk ▸ hp
      refine ⟨(f m.arena.space p).2.1, ?_, (hchange p hp').target.symm, (hchange p hp').footprint.symm⟩
      rw [patch?_switch, if_pos hk, hp', Option.map_some]
    · refine ⟨p, ?_, rfl, rfl⟩
      rw [patch?_switch, if_neg hk]
      exact hp

/-- A patch is ended. -/
theorem finish
    (f : Arena → Code.Patch → Arena) (m : Machine) (n : Nat) :
    m.Left (m.finish f n) := by
  intro k p hp
  rw [patch?_finish] at hp
  split at hp
  · cases hp
  · exact ⟨p, hp, rfl, rfl⟩

/-- A patch is built. -/
theorem build
    (d : Decoder) (m : Machine) (site : Site) (a : Nat) :
    (m.build d site a).2.Left m := by
  have hbuilds := build_builds d m site a
  generalize m.build d site a = outcome at hbuilds ⊢
  cases hbuilds with
  | refused hmade hnext hsame => exact fun _ p hp => ⟨p, hsame ▸ hp, rfl, rfl⟩
  | built hmade hnext hnow =>
      intro k p hp
      refine ⟨p, ?_, rfl, rfl⟩
      rw [hnow, hp, Option.some_or]

end Left

end Machine

/-! ## Phases -/

section Phases

variable {a b : Registry × Journal Machine} {gives : Nat → Prop} {current : Nat → Option Mapping}

/-- The functions of records lie well inside the code, or are not near it. -/
def Registry.Fits (code : Range) (current : Nat → Option Mapping) (records : List Record) : Prop :=
  ∀ r ∈ records, ∀ mapping, current r.module = some mapping →
    Code.Surrounds code (mapping.addressOf r.offset) ∨ Code.Elsewhere code (mapping.addressOf r.offset)

/-- Patches that may be given up are not in the code. -/
def Registry.GivesUpElsewhere (code : Range) (gives : Nat → Prop) (a : Registry × Journal Machine) : Prop :=
  ∀ module q, gives module → Holds a.1.records module q →
    ∀ p, a.2.state.patch? (a.2.patch q) = some p → code.contains p.target = false

/-- The records of a stage, seen from after it. -/
theorem Registry.Fits.before
    {host : Host (Journal Machine)} {x : Scope}
    (h : Registry.Fits code current b.1.records)
    (hstage : Registry.Stage host x a b) :
    Registry.Fits code current a.1.records := by
  intro r hr mapping hplace
  obtain ⟨r', hr', hendures, -⟩ := Course.endures (.single hstage) hr
  have hfits := h r' hr' mapping (hendures.module.symm ▸ hplace)
  rw [hendures.offset] at hfits
  exact hfits

theorem Host.watched_build_state
    (d : Decoder) (site : Site) (a : Nat) (j : Journal Machine) :
    ((Machine.host d).watched.build site a j).2.state = (j.state.build d site a).2 := by
  have hhost : (Machine.host d).build site a j.state = j.state.build d site a := rfl
  simp only [Host.watched, hhost]
  split <;> next hgiven => rw [hgiven]; rfl

namespace Machine.Kept

/-- **A stage in which patches end.** -/
theorem end_stage
    (h : a.2.state.Kept code first)
    (apart : (a.2.state.within code).Apart)
    (gone : Registry.GivesUpElsewhere code gives a)
    (hstage : Registry.EndStage (Machine.host d).watched gives a b) :
    b.2.state.Kept code first ∧ a.2.state.Left b.2.state ∧ b.2.patches = a.2.patches := by
  obtain ⟨x, hmapping, hgives, hstage⟩ := hstage
  cases hstage with
  | tables | create => exact ⟨h, .refl _, rfl⟩
  | @prepare g j j' hcall =>
      have hquiet := Machine.quiet_of_watched hcall
      exact ⟨h.quiet hquiet, (Left.of_quiet hquiet).1, hcall.calls.1⟩
  | @record g r r' pre post j j' hsplit hmodule hrecord =>
      cases hrecord with
      | ask | lack => exact ⟨h, .refl _, rfl⟩
      | fail habsent hplace | build habsent hplace => simp [hmapping] at hplace
      | @activate _ q _ hbacking =>
          exact ⟨h.activate apart (j.patch q),
            (Left.switch h.owning (fun s _ hformed => hformed.activate s) (j.patch q)).1, rfl⟩
      | @remove _ q _ hremoves hbacking =>
          have hleft := (Left.switch h.owning (fun s _ hformed => hformed.revert s) (j.patch q)).1
          exact ⟨(h.revert apart (j.patch q)).remove (hleft.apart apart) (j.patch q),
            hleft.trans (Left.finish _ _ _), rfl⟩
      | @detach _ q _ hdetaches hbacking =>
          have hheld : Holds g.records x.module q := by
            refine ⟨r, ?_, hmodule, by rw [Record.patch?, hbacking]⟩
            rw [hsplit]
            exact List.mem_append_right _ List.mem_cons_self
          exact ⟨h.detach (gone x.module q (hgives hdetaches) hheld), Left.finish _ _ _, rfl⟩

/-- **A phase in which patches end.** -/
theorem ends
    (h : a.2.state.Kept code first)
    (apart : (a.2.state.within code).Apart)
    (gone : Registry.GivesUpElsewhere code gives a)
    (hends : ReflTransGen (Registry.EndStage (Machine.host d).watched gives) a b) :
    b.2.state.Kept code first := by
  have hall : b.2.state.Kept code first ∧ a.2.state.Left b.2.state ∧ b.2.patches = a.2.patches ∧
      ∀ module q, Holds b.1.records module q → Holds a.1.records module q := by
    induction hends with
    | refl => exact ⟨h, .refl _, rfl, fun _ _ hp => hp⟩
    | tail _ hlast ih =>
        obtain ⟨hkept, hleft, hpatches, hheld⟩ := ih
        -- what is given up was held before the phase, and stands where it stood
        obtain ⟨hkept', hleft', hpatches'⟩ := hkept.end_stage (hleft.apart apart) (by
          intro module q hgives hp p hpatch
          obtain ⟨p', hp', htarget, -⟩ := hleft _ p hpatch
          rw [htarget]
          refine gone module q hgives (hheld module q hp) p' ?_
          rw [Journal.patch, hpatches] at hp'
          exact hp') hlast
        obtain ⟨x, hmapping, -, hstage⟩ := hlast
        exact ⟨hkept', hleft.trans hleft', hpatches'.trans hpatches,
          fun module q hp => hheld module q (Course.holds (.single hstage) hmapping hp)⟩
  exact hall.1

/-- **A stage in which patches are built.** -/
theorem build_stage
    (near : d.NearBranchesLong)
    (h : a.2.state.Kept code first)
    (apart : (a.2.state.within code).Apart)
    (apart' : (b.2.state.within code).Apart)
    (fits : Registry.Fits code current b.1.records)
    (hstage : Registry.BuildStage (Machine.host d).watched current a b) :
    b.2.state.Kept code first := by
  obtain ⟨x, hremoves, hdetaches, hcurrent, hstage⟩ := hstage
  have hbefore := fits.before hstage
  cases hstage with
  | tables | create => exact h
  | prepare g hcall => exact h.quiet (Machine.quiet_of_watched hcall)
  | @record g r r' pre post j j' hsplit hmodule hrecord =>
      have hr : r ∈ g.records := by
        rw [hsplit]
        exact List.mem_append_right _ List.mem_cons_self
      have hbuilt : ∀ (mapping : Mapping) (allocator : Nat) (outcome : Built × Journal Machine),
          x.mapping = some mapping →
          (Machine.host d).watched.build ⟨mapping.addressOf r.offset, r.size, r.id⟩ allocator j = outcome →
          (outcome.2.state.within code).Apart → outcome.2.state.Kept code first := by
        rintro mapping allocator _ hplace rfl hapart
        rw [Host.watched_build_state] at hapart ⊢
        exact h.build near _ _ (hbefore r hr mapping (hmodule.symm ▸ hcurrent mapping hplace)) hapart
      cases hrecord with
      | ask | lack => exact h
      | fail habsent hplace hbuild hunbuilt => exact hbuilt _ _ _ hplace hbuild apart'
      | build habsent hplace hbuild => exact hbuilt _ _ _ hplace hbuild apart'
      | @activate _ q _ hbacking => exact h.activate apart (j.patch q)
      | remove s hends => simp [hremoves] at hends
      | detach s hends => simp [hdetaches] at hends

/-- No patch ends while others are built. -/
theorem left_of_build_stage
    (howning : a.2.state.Owning)
    (hstage : Registry.BuildStage (Machine.host d).watched current a b) :
    b.2.state.Left a.2.state := by
  obtain ⟨x, hremoves, hdetaches, -, hstage⟩ := hstage
  cases hstage with
  | tables | create => exact .refl _
  | prepare g hcall => exact (Left.of_quiet (Machine.quiet_of_watched hcall)).2
  | @record g r r' pre post j j' hsplit hmodule hrecord =>
      have hbuilt : ∀ (site : Site) (allocator : Nat) (outcome : Built × Journal Machine),
          (Machine.host d).watched.build site allocator j = outcome → outcome.2.state.Left j.state := by
        rintro site allocator _ rfl
        rw [Host.watched_build_state]
        exact Left.build _ _ _ _
      cases hrecord with
      | ask | lack => exact .refl _
      | fail habsent hplace hbuild hunbuilt => exact hbuilt _ _ _ hbuild
      | build habsent hplace hbuild => exact hbuilt _ _ _ hbuild
      | @activate _ q _ hbacking =>
          exact (Left.switch howning (fun s _ hformed => hformed.activate s) (j.patch q)).2
      | remove s hends => simp [hremoves] at hends
      | detach s hends => simp [hdetaches] at hends

/-- **A phase in which patches are built.** -/
theorem builds
    (near : d.NearBranchesLong)
    (h : a.2.state.Kept code first)
    (apart : (b.2.state.within code).Apart)
    (fits : Registry.Fits code current b.1.records)
    (hbuilds : ReflTransGen (Registry.BuildStage (Machine.host d).watched current) a b) :
    b.2.state.Kept code first := by
  induction hbuilds with
  | refl => exact h
  | @tail b c hearlier hlast ih =>
      have howning : b.2.state.Owning :=
        (Machine.host_preserves_owning near).watched.stages (fun _ _ ⟨x, _, _, _, hstage⟩ => ⟨x, hstage⟩)
          hearlier h.owning
      have hapart := (left_of_build_stage howning hlast).apart apart
      obtain ⟨x, -, -, -, hstage⟩ := id hlast
      exact build_stage near (ih hapart (fits.before hstage)) hapart apart fits hlast

end Machine.Kept

end Phases

/-! ## Stations -/

namespace Station

variable {name : String} {st st' : Station} {j j' : Journal Machine} {act : Act} {g' : Registry}
  {calls : List Call}

/-- **What every act keeps.** -/
theorem Goes.kept
    (near : d.NearBranchesLong)
    (h : Goes (Machine.host d) act st st' j j' g' calls)
    (hkept : j.state.Kept code first)
    (apart : (j.state.within code).Apart)
    (apart' : (j'.state.within code).Apart)
    (fits : Registry.Fits code st'.current st'.registry.records)
    (gone : Registry.GivesUpElsewhere code (act.MayGiveUp st.fleet.tracker calls) (st.registry, j)) :
    j'.state.Kept code first := by
  obtain hsame | hends := h.left
  · obtain ⟨mid, hends, hbuilds⟩ := h.phases
    have hmid : mid.2.state.Kept code first := hkept.ends apart gone hends
    exact Machine.Kept.builds near hmid apart' (hsame ▸ fits) hbuilds
  · exact hkept.ends apart gone hends

/-- A module's mapping is there, its functions lie well inside its code and their patches do not overlap,
and functions of other modules are not near the code. -/
structure Separate (x : Tracked) (code : Range) (st : Station) (m : Machine) : Prop where
  there : x ∈ st.fleet.tracker.mappings
  mine : ∀ r ∈ st.records, r.module = x.module → Code.Surrounds code (x.mapping.addressOf r.offset)
  apart : (m.within code).Apart
  others : ∀ r ∈ st.records, r.module ≠ x.module → ∀ mapping, st.current r.module = some mapping →
    Code.Elsewhere code (mapping.addressOf r.offset)

section Generic

variable {σ : Type} {j : Journal σ}

theorem Sound.orderly
    (h : Sound name st j) :
    st.fleet.tracker.Orderly := by
  obtain ⟨t, ht, hfleet⟩ := h.fleet
  obtain hfleet | ⟨listener, g, hfleet, -⟩ := hfleet <;>
  · rw [hfleet]
    exact ht

end Generic

namespace Separate

variable {x : Tracked}

/-- Functions are well inside the code or not near it. -/
theorem fits
    {m : Machine}
    (h : Separate x code st m)
    (ht : st.fleet.tracker.Orderly) :
    Registry.Fits code st.current st.records := by
  intro r hr mapping hplace
  by_cases hmine : r.module = x.module
  · have hcurrent : st.current x.module = some x.mapping := ht.current_of_mem h.there
    rw [hmine, hcurrent] at hplace
    cases hplace
    exact .inl (h.mine r hr hmine)
  · exact .inr (h.others r hr hmine mapping hplace)

/-- A patch in the code is the patch of a record of the module. -/
theorem holds
    {n : Nat} {p : Code.Patch}
    (h : Separate x code st j.state)
    (ht : st.fleet.tracker.Orderly)
    (htends : st.Tends j)
    (hlinked : Linked j)
    (hp : j.state.patch? n = some p)
    (hin : code.contains p.target = true) :
    ∃ r ∈ st.records, r.module = x.module ∧ p.target = x.mapping.addressOf r.offset := by
  obtain ⟨r, hr, mapping, hplace, htarget⟩ := patches_are_held htends hlinked hp
  by_cases hmine : r.module = x.module
  · have hcurrent : st.current x.module = some x.mapping := ht.current_of_mem h.there
    rw [hmine, hcurrent] at hplace
    cases hplace
    exact ⟨r, hr, hmine, htarget⟩
  · have haway := (h.others r hr hmine mapping hplace).not_contains
    rw [← htarget, hin] at haway
    cases haway

end Separate

end Station

end CallProfiler.Image
