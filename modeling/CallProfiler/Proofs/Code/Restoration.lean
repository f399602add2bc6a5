import CallProfiler.Code.Patchwork
import CallProfiler.Proofs.Code.Lengths
import CallProfiler.Proofs.Memory.Reservations

/-!
# A patch can put back what it changed

What a patch remembers, the byte that its padding held and the first bytes of the function from before
it was diverted, is what the memory held before the patch was built; where nothing is changed at the
moment the memory holds it still.  Switching keeps this, and removal puts the remembered bytes back.

**Main statements.**
* `Settled.activate`, `Settled.revert`: switching changes bytes of the footprint only.
* `Settled.remove`: removal restores the footprint.
* `Settled.remove_avoids`: removal leaves the code mapped, with the block given back.
-/

namespace CallProfiler.Code

open Memory

/-- The bytes of the footprint that differ, or may differ, at the moment. -/
def Patch.changed : Patch → Range
  | jumper p =>
    ⟨p.jumper.padding.start, if p.jumper.active then p.jumper.target + shortJumpSize else p.jumper.target⟩
  | moving p => ⟨p.target, if p.active then p.target + nearJumpSize else p.target⟩

/-- What the jumper has noted is what the memory held at first. -/
structure Jumper.Remembers (j : Jumper) (first : Space) : Prop where
  start : j.padding.start ≤ j.target
  finish : j.padding.finish = j.target
  filler : ∀ x, j.padding.contains x = true → first.bytes x = j.filler
  saved : j.active = true → j.saved = first.read j.target shortJumpSize

/-- What the patch has noted is what the memory held at first. -/
structure MovingPatch.Remembers (p : MovingPatch) (first : Space) : Prop where
  jump : p.jump.length = nearJumpSize
  saved : p.active = true → p.saved = first.read p.target nearJumpSize

def Patch.Remembers (first : Space) : Patch → Prop
  | jumper p => p.jumper.Remembers first
  | moving p => p.Remembers first

/-- The patch remembers what the memory held at first, and in the footprint the memory differs from
that only where the patch changed it. -/
structure Patch.Settled (p : Patch) (first s : Space) : Prop where
  remembers : p.Remembers first
  clean : ∀ x, p.footprint.contains x = true → p.changed.contains x = false → s.bytes x = first.bytes x

variable {first s : Space} {p : Patch} {x : Nat}

/-! ## Stores over the start of a function -/

/-- Store by store, five bytes are put as if at once. -/
theorem bytes_writeEntry
    (s : Space) (target : Nat) {code : List UInt8}
    (five : code.length = nearJumpSize) :
    (writeEntry s target code).bytes x = (s.write target code).bytes x := by
  obtain ⟨a, b, c, d, e, rfl⟩ : ∃ a b c d e, code = [a, b, c, d, e] := by
    match code, five with
    | [a, b, c, d, e], _ => exact ⟨a, b, c, d, e, rfl⟩
  simp only [writeEntry, entryStores, List.foldl_cons, List.foldl_nil, Space.bytes_write]
  by_cases hbelow : x < target
  · have hstart : ¬target ≤ x := Nat.not_le.mpr hbelow
    have hrest : ¬target + 2 ≤ x := by omega
    simp only [Nat.add_zero, if_neg hstart, if_neg hrest]
  · obtain ⟨k, rfl⟩ := Nat.exists_eq_add_of_le (Nat.le_of_not_lt hbelow)
    rcases k with _ | _ | _ | _ | _ | k <;> simp [Nat.add_sub_add_left]

theorem length_diversion
    (j : Jumper) :
    j.diversion.length = shortJumpSize :=
  rfl

/-! ## Switching -/

theorem activate_of_active
    (h : p.active = true) :
    p.activate s = (false, p, s) := by
  cases p with
  | jumper p =>
      have hactive : p.jumper.active = true := h
      simp [Patch.activate, Jumper.activate, hactive]
  | moving p =>
      have hactive : p.active = true := h
      simp [Patch.activate, hactive]

theorem activate_jumper
    {p : JumperPatch}
    (h : p.jumper.active = false) :
    (Patch.jumper p).activate s =
      (true,
        .jumper { p with
          jumper := { p.jumper with saved := s.read p.jumper.target shortJumpSize, active := true } },
        s.write p.jumper.target p.jumper.diversion) := by
  simp [Patch.activate, Jumper.activate, h]

theorem activate_moving
    {p : MovingPatch}
    (h : p.active = false) :
    (Patch.moving p).activate s =
      (true, .moving { p with saved := s.read p.target nearJumpSize, active := true },
        writeEntry s p.target p.jump) := by
  simp [Patch.activate, h]

theorem revert_of_inactive
    (h : p.active = false) :
    p.revert s = (false, p, s) := by
  cases p with
  | jumper p =>
      have hactive : p.jumper.active = false := h
      simp [Patch.revert, Jumper.revert, hactive]
  | moving p =>
      have hactive : p.active = false := h
      simp [Patch.revert, hactive]

theorem revert_jumper
    {p : JumperPatch}
    (h : p.jumper.active = true) :
    (Patch.jumper p).revert s =
      (true, .jumper { p with jumper := { p.jumper with active := false } },
        s.write p.jumper.target p.jumper.saved) := by
  simp [Patch.revert, Jumper.revert, h]

theorem revert_moving
    {p : MovingPatch}
    (h : p.active = true) :
    (Patch.moving p).revert s =
      (true, .moving { p with active := false }, writeEntry s p.target p.saved) := by
  simp [Patch.revert, h]

/-- The patch is settled after being switched, and only bytes of its footprint changed. -/
structure Patch.Switches (first s : Space) (p : Patch) (outcome : Bool × Patch × Space) : Prop where
  settled : outcome.2.1.Settled first outcome.2.2
  footprint : outcome.2.1.footprint = p.footprint
  same : ∀ x, p.footprint.contains x = false → outcome.2.2.bytes x = s.bytes x
  regions : outcome.2.2.regions = s.regions

namespace Patch.Settled

/-- Two memories that agree on the footprint are the same to the patch. -/
theorem of_same
    {first' : Space}
    (h : p.Settled first s)
    (same : ∀ x, p.footprint.contains x = true → first.bytes x = first'.bytes x) :
    p.Settled first' s := by
  refine ⟨?_, fun x hin hout => (h.clean x hin hout).trans (same x hin)⟩
  cases p with
  | jumper p =>
      have hkept : p.jumper.Remembers first := h.remembers
      have hstart := hkept.start
      have hfinish := hkept.finish
      refine ⟨hstart, hfinish, fun x hx => ?_, fun on => ?_⟩
      · rw [← hkept.filler x hx]
        rw [Range.contains_iff] at hx
        refine (same x ?_).symm
        rw [footprint, Range.contains_iff]
        simp only
        omega
      · rw [hkept.saved on]
        refine first.read_congr fun x hx => same x ?_
        rw [Range.contains_ofLength_iff] at hx
        rw [footprint, Range.contains_iff]
        simp only
        omega
  | moving p =>
      have hkept : p.Remembers first := h.remembers
      refine ⟨hkept.jump, fun on => ?_⟩
      rw [hkept.saved on]
      exact first.read_congr same

theorem stays
    (h : p.Settled first s)
    (changed : Bool) :
    p.Switches first s (changed, p, s) :=
  ⟨h, rfl, fun _ _ => rfl, rfl⟩

/-- A jumper that is switched on notes the two bytes that the memory held at first. -/
theorem activate_jumper
    {p : JumperPatch}
    (h : (Patch.jumper p).Settled first s)
    (off : p.jumper.active = false) :
    (Patch.jumper p).Switches first s ((Patch.jumper p).activate s) := by
  have hkept : p.jumper.Remembers first := h.remembers
  have hstart := hkept.start
  have hread : s.read p.jumper.target shortJumpSize = first.read p.jumper.target shortJumpSize := by
    refine s.read_congr fun y hy => ?_
    rw [Range.contains_ofLength_iff] at hy
    refine h.clean y ?_ ?_
    · rw [footprint, Range.contains_iff]
      simp only
      omega
    · simp only [changed, off, Range.contains_eq_false_iff, Bool.false_eq_true, if_false]
      omega
  rw [Code.activate_jumper off]
  refine ⟨⟨⟨hstart, hkept.finish, hkept.filler, fun _ => hread⟩, ?_⟩, rfl, ?_, rfl⟩
  · intro y hin hout
    simp only [footprint, changed, if_true] at hin hout
    rw [hin] at hout
    cases hout
  · intro y hout
    rw [footprint, Range.contains_eq_false_iff] at hout
    simp only at hout
    refine s.bytes_write_outside ?_
    rw [length_diversion]
    omega

/-- A moving patch that is switched on notes the five bytes that the memory held at first. -/
theorem activate_moving
    {p : MovingPatch}
    (h : (Patch.moving p).Settled first s)
    (off : p.active = false) :
    (Patch.moving p).Switches first s ((Patch.moving p).activate s) := by
  have hkept : p.Remembers first := h.remembers
  have hread : s.read p.target nearJumpSize = first.read p.target nearJumpSize := by
    refine s.read_congr fun y hy => h.clean y hy ?_
    simp only [changed, off, Range.contains_eq_false_iff, Bool.false_eq_true, if_false]
    omega
  rw [Code.activate_moving off]
  refine ⟨⟨⟨hkept.jump, fun _ => hread⟩, ?_⟩, rfl, ?_, rfl⟩
  · intro y hin hout
    simp only [footprint, changed, if_true] at hin hout
    rw [hin] at hout
    cases hout
  · intro y hout
    rw [footprint, Range.contains_eq_false_iff] at hout
    simp only at hout ⊢
    rw [bytes_writeEntry s p.target hkept.jump]
    refine s.bytes_write_outside ?_
    rw [hkept.jump]
    omega

theorem activate
    (h : p.Settled first s) :
    p.Switches first s (p.activate s) := by
  cases hactive : p.active with
  | true =>
      rw [activate_of_active hactive]
      exact h.stays false
  | false =>
      cases p with
      | jumper p => exact h.activate_jumper hactive
      | moving p => exact h.activate_moving hactive

/-- A jumper that is switched off puts the two bytes back. -/
theorem revert_jumper
    {p : JumperPatch}
    (h : (Patch.jumper p).Settled first s)
    (on : p.jumper.active = true) :
    (Patch.jumper p).Switches first s ((Patch.jumper p).revert s) := by
  have hkept : p.jumper.Remembers first := h.remembers
  have hstart := hkept.start
  rw [Code.revert_jumper on, hkept.saved on]
  refine ⟨⟨⟨hstart, hkept.finish, hkept.filler, fun no => by cases no⟩, ?_⟩, rfl, ?_, rfl⟩
  · intro y hin hout
    simp only [footprint, changed, Range.contains_iff, Range.contains_eq_false_iff,
      Bool.false_eq_true, if_false] at hin hout
    refine s.bytes_write_read first ?_
    rw [Range.contains_ofLength_iff]
    omega
  · intro y hout
    rw [footprint, Range.contains_eq_false_iff] at hout
    simp only at hout
    refine s.bytes_write_outside ?_
    rw [Space.length_read]
    omega

/-- A moving patch that is switched off puts the five bytes back. -/
theorem revert_moving
    {p : MovingPatch}
    (h : (Patch.moving p).Settled first s)
    (on : p.active = true) :
    (Patch.moving p).Switches first s ((Patch.moving p).revert s) := by
  have hkept : p.Remembers first := h.remembers
  have hfive := first.length_read (a := p.target) nearJumpSize
  rw [Code.revert_moving on, hkept.saved on]
  refine ⟨⟨⟨hkept.jump, fun no => by cases no⟩, ?_⟩, rfl, ?_, rfl⟩
  · intro y hin _
    simp only
    rw [bytes_writeEntry s p.target hfive]
    exact s.bytes_write_read first hin
  · intro y hout
    rw [footprint, Range.contains_eq_false_iff] at hout
    simp only at hout ⊢
    rw [bytes_writeEntry s p.target hfive]
    refine s.bytes_write_outside ?_
    rw [hfive]
    omega

theorem revert
    (h : p.Settled first s) :
    p.Switches first s (p.revert s) := by
  cases hactive : p.active with
  | false =>
      rw [revert_of_inactive hactive]
      exact h.stays false
  | true =>
      cases p with
      | jumper p => exact h.revert_jumper hactive
      | moving p => exact h.revert_moving hactive

end Patch.Settled

/-! ## Removal -/

theorem off_revert
    (s : Space) (p : Patch) :
    (p.revert s).2.1.active = false ∧ (p.revert s).2.1.target = p.target := by
  cases hactive : p.active with
  | false =>
      rw [revert_of_inactive hactive]
      exact ⟨hactive, rfl⟩
  | true =>
      cases p with
      | jumper p =>
          rw [revert_jumper hactive]
          exact ⟨rfl, rfl⟩
      | moving p =>
          rw [revert_moving hactive]
          exact ⟨rfl, rfl⟩

/-- A patch that is off has changed nothing from the start of the function on. -/
theorem changed_of_inactive
    (off : p.active = false)
    (above : p.target ≤ x) :
    p.changed.contains x = false := by
  rw [Range.contains_eq_false_iff]
  cases p with
  | jumper p =>
      have hoff : p.jumper.active = false := off
      have habove : p.jumper.target ≤ x := above
      simp only [Patch.changed, hoff, Bool.false_eq_true, if_false]
      omega
  | moving p =>
      have hoff : p.active = false := off
      have habove : p.target ≤ x := above
      simp only [Patch.changed, hoff, Bool.false_eq_true, if_false]
      omega

namespace Patch.Settled

/-- Switched off, the patch has put back everything from the start of the function on. -/
theorem reverted
    (h : p.Settled first s)
    (inside : p.footprint.contains x = true)
    (above : p.target ≤ x) :
    (p.revert s).2.2.bytes x = first.bytes x := by
  have hswitched := h.revert
  obtain ⟨hoff, htarget⟩ := off_revert s p
  refine hswitched.settled.clean x ?_ ?_
  · rw [hswitched.footprint]
    exact inside
  · refine changed_of_inactive hoff ?_
    rw [htarget]
    exact above

variable {m : Arena} {code : Range}

/-- Removal restores the footprint. -/
theorem remove
    (h : p.Settled first m.space)
    (inside : p.footprint.contains x = true) :
    (p.remove m).space.bytes x = first.bytes x := by
  cases p with
  | jumper p =>
      have hkept : p.jumper.Remembers first := h.remembers
      simp only [Patch.remove, Arena.bytes_free, Jumper.remove]
      cases hpadding : p.jumper.padding.contains x with
      | true =>
          rw [Space.bytes_fill_inside _ hpadding]
          exact (hkept.filler x hpadding).symm
      | false =>
          rw [Space.bytes_fill_outside _ hpadding]
          refine h.reverted inside ?_
          have hfinish := hkept.finish
          rw [footprint, Range.contains_iff] at inside
          rw [Range.contains_eq_false_iff] at hpadding
          simp only at inside
          simp only [target]
          omega
  | moving p =>
      simp only [Patch.remove, Arena.bytes_free]
      refine h.reverted inside ?_
      exact (Range.contains_iff.mp inside).1

/-- Removal changes nothing but the footprint. -/
theorem remove_outside
    (h : p.Settled first m.space)
    (outside : p.footprint.contains x = false) :
    (p.remove m).space.bytes x = m.space.bytes x := by
  have hsame := h.revert.same x outside
  cases p with
  | jumper p =>
      have hkept : p.jumper.Remembers first := h.remembers
      have hfinish := hkept.finish
      simp only [Patch.remove, Arena.bytes_free, Jumper.remove]
      rw [Space.bytes_fill_outside]
      · exact hsame
      · rw [footprint, Range.contains_eq_false_iff] at outside
        rw [Range.contains_eq_false_iff]
        simp only at outside
        omega
  | moving p =>
      simp only [Patch.remove, Arena.bytes_free]
      exact hsame

theorem remove_avoids
    (h : p.Settled first m.space)
    (avoids : m.Avoids code) :
    (p.remove m).Avoids code := by
  have hregions := h.revert.regions
  cases p with
  | jumper p =>
      have hrefilled : (p.jumper.remove m.space).regions = m.space.regions := hregions
      exact (avoids.store hrefilled).free p.key
  | moving p =>
      exact (avoids.store hregions).free p.key

end Patch.Settled

end CallProfiler.Code
