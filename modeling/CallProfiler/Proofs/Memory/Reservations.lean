import CallProfiler.Memory.Arena
import CallProfiler.Proofs.Memory.Bytes

/-!
# Reservations leave mapped code alone

Code that is mapped stays mapped and keeps its bytes when memory elsewhere is mapped and unmapped: a
mapping is granted only where nothing is mapped, and only reservations are unmapped.

**Main statements.**
* `Space.Maps.map`, `Space.Maps.unmap`, `Space.Maps.protect`: what mapping, unmapping and changing
  protection do to mapped code.
* `Arena.Avoids.sweep`, `Arena.Avoids.free`: an arena that avoids the code goes on doing so when its
  reservations are released.
-/

namespace CallProfiler.Memory

/-- The two ranges have no address in common. -/
def Range.Apart (r s : Range) : Prop :=
  ∀ x, r.contains x = true → s.contains x = false

theorem Range.apart_iff
    {r s : Range} :
    r.Apart s ↔ r.meets s = false := by
  rw [← Bool.not_eq_true, Range.meets_iff]
  constructor
  · rintro h ⟨x, hx, hx'⟩
    rw [h x hx] at hx'
    cases hx'
  · intro h x hx
    rw [← Bool.not_eq_true]
    exact fun hx' => h ⟨x, hx, hx'⟩

theorem Range.Apart.symm
    {r s : Range}
    (h : r.Apart s) :
    s.Apart r := by
  intro x hs
  rw [← Bool.not_eq_true]
  intro hr
  rw [h x hr] at hs
  cases hs

/-- Parts of ranges that are apart are apart. -/
theorem Range.Apart.parts
    {r s r' s' : Range}
    (h : r.Apart s)
    (hr : r.start ≤ r'.start ∧ r'.finish ≤ r.finish)
    (hs : s.start ≤ s'.start ∧ s'.finish ≤ s.finish) :
    r'.Apart s' := by
  intro x hx
  have hbounds := Range.contains_iff.1 hx
  have houtside := h x (Range.contains_iff.2 ⟨by omega, by omega⟩)
  rw [← Bool.not_eq_true, Range.contains_iff] at houtside ⊢
  omega

theorem Range.apart_of_le
    {r s : Range}
    (h : r.finish ≤ s.start) :
    r.Apart s := by
  intro x hx
  have hbounds := Range.contains_iff.1 hx
  rw [← Bool.not_eq_true, Range.contains_iff]
  omega

/-- Every address of the code is mapped. -/
def Space.Maps (s : Space) (code : Range) : Prop :=
  ∀ x, code.contains x = true → ∃ g ∈ s.regions, g.range.contains x = true

/-- The code has the same bytes in both memories. -/
def Space.Agrees (s t : Space) (code : Range) : Prop :=
  ∀ x, code.contains x = true → t.bytes x = s.bytes x

variable {code : Range}

namespace Space

variable {s t : Space}

theorem Agrees.refl
    (s : Space) :
    s.Agrees s code :=
  fun _ _ => rfl

theorem Agrees.trans
    {u : Space}
    (h : s.Agrees t code)
    (h' : t.Agrees u code) :
    s.Agrees u code :=
  fun x hx => (h' x hx).trans (h x hx)

/-! ## Regions -/

theorem mem_insertRegion
    {g h : Region} {regions : List Region} :
    h ∈ insertRegion g regions ↔ h = g ∨ h ∈ regions := by
  induction regions with
  | nil =>
      simp [insertRegion]
  | cons first rest ih =>
      rw [insertRegion]
      split
      · exact List.mem_cons
      · rw [List.mem_cons, ih, List.mem_cons]
        exact or_left_comm

theorem mem_clip
    {g : Region} {r : Range} {x : Nat}
    (hg : g.range.contains x = true)
    (hr : r.contains x = true) :
    ∃ part ∈ clip g r, part.range.contains x = true := by
  rw [Range.contains_iff] at hg hr
  have hpart : (Range.mk (max g.range.start r.start) (min g.range.finish r.finish)).isEmpty = false := by
    simp only [Range.isEmpty, decide_eq_false_iff_not]
    omega
  refine ⟨{ g with range := ⟨max g.range.start r.start, min g.range.finish r.finish⟩ }, ?_, ?_⟩
  · simp only [clip, hpart, Bool.false_eq_true, if_false, List.mem_singleton]
  · rw [Range.contains_iff]
    simp only
    omega

namespace Maps

theorem unmap
    {r : Range}
    (h : s.Maps code)
    (apart : code.Apart r) :
    (s.unmap r).Maps code := by
  intro x hx
  obtain ⟨g, hg, hgx⟩ := h x hx
  have houtside : ¬(r.start ≤ x ∧ x < r.finish) := by
    rw [← Range.contains_iff, apart x hx]
    exact Bool.false_ne_true
  have hbounds := Range.contains_iff.mp hgx
  have hmem {part : Region}
      (hpart : part ∈ clip g ⟨0, r.start⟩ ++ clip g ⟨max r.start r.finish, g.range.finish⟩) :
      part ∈ (s.unmap r).regions :=
    List.mem_flatMap.mpr ⟨g, hg, hpart⟩
  by_cases hbelow : x < r.start
  · obtain ⟨part, hpart, hpx⟩ := mem_clip (r := ⟨0, r.start⟩) hgx
      (Range.contains_iff.mpr ⟨Nat.zero_le x, hbelow⟩)
    exact ⟨part, hmem (List.mem_append_left _ hpart), hpx⟩
  · obtain ⟨part, hpart, hpx⟩ := mem_clip (r := ⟨max r.start r.finish, g.range.finish⟩) hgx
      (Range.contains_iff.mpr ⟨by simp only; omega, hbounds.2⟩)
    exact ⟨part, hmem (List.mem_append_right _ hpart), hpx⟩

/-- Changing the protection of pages maps nothing and unmaps nothing. -/
theorem reprotect
    {r : Range} {p : Protection} {x : Nat} {g : Region} {regions : List Region}
    (hg : g ∈ regions)
    (hx : g.range.contains x = true) :
    ∃ part ∈ Space.reprotect regions r p, part.range.contains x = true := by
  unfold Space.reprotect
  split
  · exact ⟨g, hg, hx⟩
  · next hr =>
      have hbounds := Range.contains_iff.mp hx
      simp only [Range.isEmpty, decide_eq_true_eq] at hr
      by_cases hbelow : x < r.start
      · obtain ⟨part, hpart, hpx⟩ := mem_clip (r := ⟨0, r.start⟩) hx
          (Range.contains_iff.mpr ⟨Nat.zero_le x, hbelow⟩)
        exact ⟨part, List.mem_flatMap.mpr ⟨g, hg, List.mem_append_left _ (List.mem_append_left _ hpart)⟩,
          hpx⟩
      · by_cases habove : r.finish ≤ x
        · obtain ⟨part, hpart, hpx⟩ := mem_clip (r := ⟨r.finish, g.range.finish⟩) hx
            (Range.contains_iff.mpr ⟨habove, hbounds.2⟩)
          exact ⟨part, List.mem_flatMap.mpr ⟨g, hg, List.mem_append_right _ hpart⟩, hpx⟩
        · obtain ⟨part, hpart, hpx⟩ := mem_clip (r := r) hx
            (Range.contains_iff.mpr ⟨Nat.le_of_not_lt hbelow, Nat.lt_of_not_le habove⟩)
          refine ⟨{ part with protection := p }, List.mem_flatMap.mpr ⟨g, hg, ?_⟩, hpx⟩
          exact List.mem_append_left _ (List.mem_append_right _ (List.mem_map_of_mem hpart))

theorem protect
    (h : s.Maps code)
    (r : Range) (p : Protection) :
    (s.protect r p).2.Maps code := by
  intro x hx
  obtain ⟨g, hg, hgx⟩ := h x hx
  unfold Space.protect
  dsimp only
  split
  · exact ⟨g, hg, hgx⟩
  · split
    · exact ⟨g, hg, hgx⟩
    · exact reprotect hg hgx

/-- A mapping is granted only outside the code, and what it clears is not the code. -/
theorem map
    {address length : Nat} {p : Protection} {result : Except SystemFault Range}
    (h : s.Maps code)
    (hmap : s.map address length p = (result, t)) :
    t.Maps code ∧ s.Agrees t code ∧
      ∀ range, result = .ok range →
        range = Range.ofLength address (pageUp length) ∧ code.Apart range := by
  simp only [Space.map] at hmap
  split at hmap
  · cases hmap
    exact ⟨h, fun _ _ => rfl, fun _ hr => by cases hr⟩
  · next hgranted =>
      cases hmap
      have hfree : code.Apart (Range.ofLength address (pageUp length)) := by
        intro x hx
        obtain ⟨g, hg, hgx⟩ := h x hx
        rw [← Bool.not_eq_true]
        intro hrange
        have hmeets : (s.regions.any (·.range.meets (Range.ofLength address (pageUp length)))) = true :=
          List.any_eq_true.mpr ⟨g, hg, Range.meets_iff.mpr ⟨x, hgx, hrange⟩⟩
        simp only [mapFault?, hmeets, if_true] at hgranted
        split at hgranted
        · cases hgranted
        · split at hgranted
          · cases hgranted
          · split at hgranted <;> cases hgranted
      refine ⟨?_, ?_, ?_⟩
      · intro x hx
        obtain ⟨g, hg, hgx⟩ := h x hx
        exact ⟨g, mem_insertRegion.mpr (Or.inr hg), hgx⟩
      · intro x hx
        exact bytes_fill_outside _ (hfree x hx)
      · intro range hr
        cases hr
        exact ⟨rfl, hfree⟩

end Maps

end Space

/-! ## Arenas -/

namespace Arena

/-- The code is mapped, and no reservation reaches into it. -/
structure Avoids (m : Arena) (code : Range) : Prop where
  mapped : m.space.Maps code
  apart : ∀ r ∈ m.reservations, code.Apart r.2.range

variable {m m' : Arena}

/-- Stores keep an arena off the code. -/
theorem Avoids.store
    {space : Space}
    (h : m.Avoids code)
    (same : space.regions = m.space.regions) :
    { m with space }.Avoids code where
  mapped := by
    intro x hx
    obtain ⟨g, hg, hgx⟩ := h.mapped x hx
    exact ⟨g, same ▸ hg, hgx⟩
  apart := h.apart

theorem bytes_unmapAll
    (s : Space) (reservations : List (Nat × Reservation)) :
    (reservations.foldl (fun s r => s.unmap r.2.range) s).bytes = s.bytes := by
  induction reservations generalizing s with
  | nil =>
      rfl
  | cons r rest ih =>
      exact ih (s.unmap r.2.range)

theorem maps_unmapAll
    {s : Space} {reservations : List (Nat × Reservation)}
    (h : s.Maps code)
    (apart : ∀ r ∈ reservations, code.Apart r.2.range) :
    (reservations.foldl (fun s r => s.unmap r.2.range) s).Maps code := by
  induction reservations generalizing s with
  | nil =>
      exact h
  | cons r rest ih =>
      exact ih (h.unmap (apart r List.mem_cons_self))
        fun q hq => apart q (List.mem_cons_of_mem _ hq)

@[simp] theorem bytes_sweep
    (m : Arena) :
    m.sweep.space.bytes = m.space.bytes :=
  bytes_unmapAll m.space _

theorem Avoids.sweep
    (h : m.Avoids code) :
    m.sweep.Avoids code where
  mapped := maps_unmapAll h.mapped fun r hr => h.apart r (List.mem_filter.mp hr).1
  apart := fun r hr => h.apart r (List.mem_filter.mp hr).1

@[simp] theorem bytes_free
    (m : Arena) (key : Nat) :
    (m.free key).space.bytes = m.space.bytes :=
  bytes_sweep _

/-- Giving a block back does not touch the code. -/
theorem Avoids.free
    (h : m.Avoids code)
    (key : Nat) :
    (m.free key).Avoids code :=
  Avoids.sweep ⟨h.mapped, h.apart⟩

end Arena

end CallProfiler.Memory
