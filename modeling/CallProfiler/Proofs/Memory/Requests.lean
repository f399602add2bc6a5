import Mathlib.Data.Nat.Bitwise
import Mathlib.Order.Bounds.Basic
import CallProfiler.Proofs.Memory.Reservations
import CallProfiler.Proofs.Memory.Tables

/-!
# How requests for blocks are answered

A request for a block ends in one of five ways, told apart by what the allocator and its reservation in
use are.  Where it fails, nothing is different afterwards but the number of requests that the system was
asked.

**Main statements.**
* `isLeast_blockLength`, `toNat_blockLengthWord`: the length of the block for a request.
* `Arena.outcome_allocate`: the five ways.
* `Arena.allocate_of_room`: as long as the block fits in what is left of the reservation in use, the
  request is granted there.
* `Arena.Avoids.allocate`: an arena that avoids the code goes on doing so, and the block that it hands out
  avoids it too.
-/

namespace CallProfiler.Memory

/-! ## Lengths -/

/-- What a block for a request of `size` bytes may be long: a positive number of whole units, and enough. -/
def lengths (size : Nat) : Set Nat := {n | 0 < n ∧ 16 ∣ n ∧ size ≤ n}

/-- **The length of a block** is the least that does. -/
theorem isLeast_blockLength
    (size : Nat) :
    IsLeast (lengths size) (blockLength size) := by
  simp only [blockLength, blockAlignment]
  refine ⟨⟨by omega, Nat.dvd_mul_left 16 _, by omega⟩, ?_⟩
  rintro n ⟨hpos, ⟨units, rfl⟩, henough⟩
  omega

theorem le_blockLength
    (size : Nat) :
    size ≤ blockLength size :=
  (isLeast_blockLength size).1.2.2

theorem le_pageUp
    (n : Nat) :
    n ≤ pageUp n := by
  simp only [pageUp, pageSize]
  omega

/-- The length of a block in machine words, whose sums wrap around. -/
def blockLengthWord (size : UInt64) : UInt64 :=
  (max size 1 + 16 - 1) &&& ~~~15

/-- Clearing the low four bits of a word rounds it down. -/
theorem and_mask_eq
    {n : Nat}
    (h : n < 2 ^ 64) :
    n &&& (2 ^ 64 - 16) = n / 16 * 16 := by
  have hmask : (2 ^ 64 - 16 : Nat) = (2 ^ 60 - 1) * 2 ^ 4 := by decide
  have hshift : n / 16 * 16 = n / 2 ^ 4 * 2 ^ 4 := rfl
  refine Nat.eq_of_testBit_eq fun i => ?_
  rw [Nat.testBit_and, hmask, hshift, Nat.testBit_mul_two_pow, Nat.testBit_mul_two_pow,
    Nat.testBit_two_pow_sub_one, Nat.testBit_div_two_pow]
  by_cases hlow : 4 ≤ i
  · rw [Nat.sub_add_cancel hlow]
    by_cases hhigh : i < 64
    · have hinside : i - 4 < 60 := by omega
      simp [hlow, hinside]
    · have hclear : n.testBit i = false :=
        Nat.testBit_lt_two_pow (Nat.lt_of_lt_of_le h (Nat.pow_le_pow_right (by decide) (by omega)))
      simp [hclear]
  · simp [hlow]

/-- **Machine words** give the same length for every size up to the last unit of the address space.  For
the last of these sizes the sum wraps around, and the difference wraps back. -/
theorem toNat_blockLengthWord
    {size : UInt64}
    (h : size.toNat ≤ 2 ^ 64 - 16) :
    (blockLengthWord size).toNat = blockLength size.toNat := by
  have hmax : (max size 1).toNat = max size.toNat 1 := by
    have hcases : max size 1 = if size ≤ 1 then 1 else size := rfl
    rw [hcases]
    split
    · next hle =>
        rw [UInt64.le_iff_toNat_le, UInt64.toNat_one] at hle
        exact (max_eq_right hle).symm
    · next hgt =>
        rw [UInt64.le_iff_toNat_le, UInt64.toNat_one] at hgt
        exact (max_eq_left (Nat.le_of_not_le hgt)).symm
  have hsum : (max size 1 + 16 - 1).toNat = max size.toNat 1 + 15 := by
    rw [UInt64.toNat_sub, UInt64.toNat_add, hmax]
    simp only [UInt64.toNat_ofNat]
    omega
  have hmask : (~~~(15 : UInt64)).toNat = 2 ^ 64 - 16 := by decide
  rw [blockLengthWord, UInt64.toNat_and, hsum, hmask, and_mask_eq (by omega)]
  rfl

/-! ## Asking the system -/

namespace Space

variable {s t : Space} {address length : Nat} {p : Protection}

/-- A mapping that was granted: whole pages that can be mapped, at the address asked for. -/
structure Granted (s t : Space) (address length : Nat) (range : Range) : Prop where
  range_eq : range = Range.ofLength address (pageUp length)
  finish_le : range.finish ≤ userLimit
  aligned : pageSize ∣ address
  mapped : t.Maps range
  /-- Code that was mapped before is left alone, and the mapping lies outside it. -/
  outside : ∀ code, s.Maps code → t.Maps code ∧ s.Agrees t code ∧ code.Apart range

theorem map_eq_ok
    {range : Range}
    (h : s.map address length p = (.ok range, t)) :
    s.Granted t address length range := by
  have houtside : ∀ code, s.Maps code → t.Maps code ∧ s.Agrees t code ∧ code.Apart range := by
    intro code hcode
    obtain ⟨hmaps, hagrees, hrange⟩ := hcode.map h
    exact ⟨hmaps, hagrees, (hrange range rfl).2⟩
  simp only [Space.map] at h
  split at h
  · cases h
  · next hgranted =>
      simp only [mapFault?] at hgranted
      cases h
      refine ⟨rfl, Nat.le_of_not_lt fun hhigh => ?_, Nat.dvd_of_mod_eq_zero ?_, fun x hx => ?_, houtside⟩
      · rw [if_pos hhigh] at hgranted
        split at hgranted <;> cases hgranted
      · by_contra hodd
        rw [if_pos hodd] at hgranted
        split at hgranted
        · cases hgranted
        · split at hgranted <;> cases hgranted
      · exact ⟨_, mem_insertRegion.2 (.inl rfl), hx⟩

/-- A mapping that was refused is counted. -/
theorem map_eq_error
    {fault : SystemFault}
    (h : s.map address length p = (.error fault, t)) :
    t = { s with requests := s.requests + 1 } := by
  simp only [Space.map] at h
  split at h
  · cases h
    rfl
  · cases h

end Space

namespace Arena

section Reserving

variable {s t : Space} {size : Nat} {locations : List Nat}

/-- No location was granted. -/
theorem reserveAt_eq_none
    (h : reserveAt s size locations = (none, t)) :
    ∃ requests, t = { s with requests } := by
  induction locations generalizing s with
  | nil =>
      cases h
      exact ⟨_, rfl⟩
  | cons location rest ih =>
      rw [reserveAt] at h
      split at h
      · cases h
      · next hmap =>
          obtain ⟨requests, rfl⟩ := ih h
          rw [Space.map_eq_error hmap]
          exact ⟨requests, rfl⟩

/-- One of the locations was granted. -/
theorem reserveAt_eq_some
    {range : Range}
    (h : reserveAt s size locations = (some range, t)) :
    ∃ location ∈ locations, s.Granted t location size range := by
  induction locations generalizing s with
  | nil =>
      cases h
  | cons location rest ih =>
      rw [reserveAt] at h
      split at h
      · next hmap =>
          cases h
          exact ⟨location, List.mem_cons_self, Space.map_eq_ok hmap⟩
      · next hmap =>
          obtain ⟨location', hmem, hgranted⟩ := ih h
          rw [Space.map_eq_error hmap] at hgranted
          exact ⟨location', List.mem_cons_of_mem _ hmem,
            hgranted.range_eq, hgranted.finish_le, hgranted.aligned, hgranted.mapped, hgranted.outside⟩

end Reserving

/-! ## Requests, taken apart -/

variable {m : Arena} {id size : Nat} {a : Allocator}

/-- The next `size` bytes are left in the reservation in use. -/
structure HasRoom (m : Arena) (a : Allocator) (size number : Nat) (r : Reservation) : Prop where
  current : a.current = some number
  reservation : m.reservations.lookup number = some r
  left : r.used + size ≤ r.range.length

/-- What a request for a block whose length is `size` comes to. -/
inductive Outcome (m : Arena) (id size : Nat) : Except Fault (Nat × Block) × Arena → Prop where
  | unknown
      (hallocator : m.allocators.lookup id = none) :
      Outcome m id size (.error (.system .invalidArgument), m)
  | tooLarge
      {a : Allocator}
      (hallocator : m.allocators.lookup id = some a)
      (hlarge : a.blockSize < size) :
      Outcome m id size (.error (.tooLarge size a.blockSize), m)
  | carved
      {a : Allocator} {number : Nat} {r : Reservation}
      (hallocator : m.allocators.lookup id = some a)
      (hfits : size ≤ a.blockSize)
      (hroom : m.HasRoom a size number r) :
      Outcome m id size
        (.ok (m.next, ⟨r.range.start + r.used, size, number⟩),
          ({ m with reservations := put number { r with used := r.used + size } m.reservations }.addBlock
            ⟨r.range.start + r.used, size, number⟩).2.2)
  | outOfReach
      {a : Allocator} (requests : Nat)
      (hallocator : m.allocators.lookup id = some a)
      (hfits : size ≤ a.blockSize)
      (hfull : ∀ number r, ¬m.HasRoom a size number r) :
      Outcome m id size
        (.error (.outOfReach a.reference), { m with space := { m.space with requests } })
  | reserved
      {a : Allocator} {location : Nat} {range : Range} {space : Space}
      (hallocator : m.allocators.lookup id = some a)
      (hfits : size ≤ a.blockSize)
      (hfull : ∀ number r, ¬m.HasRoom a size number r)
      (hlocation : location ∈ a.locations m.space.occupied)
      (hgranted : m.space.Granted space location a.blockSize range) :
      Outcome m id size
        (.ok (m.next + 1, ⟨range.start, size, m.next⟩),
          (addBlock
            { m with
              space
              next := m.next + 1
              reservations := m.reservations ++ [(m.next, { range, used := size })]
              allocators := put id { a with current := some m.next } m.allocators }
            ⟨range.start, size, m.next⟩).2.2.sweep)

/-- Where the next block is carved, if it fits. -/
theorem carve?_eq_some_iff
    {r r' : Reservation} {address : Nat} :
    r.carve? size = some (address, r') ↔
      r.used + size ≤ r.range.length ∧ address = r.range.start + r.used ∧
        r' = { r with used := r.used + size } := by
  rw [Reservation.carve?]
  split
  · next hleft =>
      simp [hleft, eq_comm]
  · next hfull =>
      simp [hfull]

/-- A block is carved where there is room, and nowhere else. -/
theorem carved_iff
    {number address : Nat} {r' : Reservation} :
    (a.current.bind fun number => do
        let (address, r) ← (← m.reservations.lookup number).carve? size
        pure (number, address, r)) = some (number, address, r') ↔
      ∃ r, m.HasRoom a size number r ∧ address = r.range.start + r.used ∧
        r' = { r with used := r.used + size } := by
  simp only [Option.bind_eq_bind, Option.bind_eq_some_iff, Option.pure_def, Prod.exists,
    carve?_eq_some_iff, Option.some.injEq, Prod.mk.injEq]
  constructor
  · rintro ⟨n, hcurrent, r, hlookup, place, rest, ⟨hleft, rfl, rfl⟩, rfl, rfl, rfl⟩
    exact ⟨r, ⟨hcurrent, hlookup, hleft⟩, rfl, rfl⟩
  · rintro ⟨r, ⟨hcurrent, hlookup, hleft⟩, rfl, rfl⟩
    exact ⟨number, hcurrent, r, hlookup, _, _, ⟨hleft, rfl, rfl⟩, rfl, rfl, rfl⟩

/-- **How a request is answered.** -/
theorem outcome_allocate
    (m : Arena) (id size : Nat) :
    m.Outcome id (blockLength size) (m.allocate id size) := by
  simp only [allocate]
  split
  · next hallocator =>
      exact .unknown hallocator
  · next a hallocator =>
      split
      · next hlarge =>
          exact .tooLarge hallocator hlarge
      · next hfits =>
          have hfits := Nat.le_of_not_lt hfits
          split
          · next number address r' hcarved =>
              obtain ⟨r, hroom, rfl, rfl⟩ := carved_iff.1 hcarved
              exact .carved hallocator hfits hroom
          · next hnone =>
              have hfull : ∀ number r, ¬m.HasRoom a (blockLength size) number r := by
                intro number r hroom
                have hsome := carved_iff.2 ⟨r, hroom, rfl, rfl⟩
                rw [hnone] at hsome
                cases hsome
              unfold allocateFresh
              split
              · next hreserve =>
                  obtain ⟨requests, rfl⟩ := reserveAt_eq_none hreserve
                  exact .outOfReach requests hallocator hfits hfull
              · next hreserve =>
                  obtain ⟨location, hlocation, hgranted⟩ := reserveAt_eq_some hreserve
                  exact .reserved hallocator hfits hfull hlocation hgranted

/-- A request that is too large is refused before anything else is looked at. -/
theorem allocate_of_large
    (hallocator : m.allocators.lookup id = some a)
    (hlarge : a.blockSize < blockLength size) :
    m.allocate id size = (.error (.tooLarge (blockLength size) a.blockSize), m) := by
  simp only [allocate, hallocator, if_pos hlarge]

/-- **Where there is room** in the reservation in use, the block is carved there. -/
theorem allocate_of_room
    {number : Nat} {r : Reservation}
    (hallocator : m.allocators.lookup id = some a)
    (hfits : blockLength size ≤ a.blockSize)
    (hroom : m.HasRoom a (blockLength size) number r) :
    (m.allocate id size).1 =
      .ok (m.next, ⟨r.range.start + r.used, blockLength size, number⟩) := by
  have hcarved := carved_iff.2 ⟨r, hroom, rfl, rfl⟩
  simp only [allocate, hallocator, if_neg (Nat.not_lt.2 hfits), hcarved, addBlock]

/-! ## Code is left alone -/

variable {code : Range}

/-- A request for `size` bytes left the code alone, and the block granted, if any, is long enough and
lies outside the code. -/
structure Served (m : Arena) (code : Range) (size : Nat)
    (outcome : Except Fault (Nat × Block) × Arena) : Prop where
  avoids : outcome.2.Avoids code
  agrees : m.space.Agrees outcome.2.space code
  enough : ∀ key block, outcome.1 = .ok (key, block) → size ≤ block.length
  apart : ∀ key block, outcome.1 = .ok (key, block) →
    code.Apart (Range.ofLength block.address block.length)

theorem Avoids.served_refused
    (h : m.Avoids code)
    (fault : Fault) (requests : Nat) :
    m.Served code size (.error fault, { m with space := { m.space with requests } }) where
  avoids := h.store rfl
  agrees := .refl m.space
  enough := fun _ _ hr => by cases hr
  apart := fun _ _ hr => by cases hr

/-- **Allocators leave the code alone.**  Whatever an allocator of an arena that avoids the code is
asked for, the arena goes on avoiding it, and so does the block granted. -/
theorem Avoids.allocate
    (h : m.Avoids code)
    (id size : Nat) :
    m.Served code size (m.allocate id size) := by
  obtain ⟨hpos, -, hlonger⟩ := (isLeast_blockLength size).1
  have houtcome := outcome_allocate m id size
  generalize blockLength size = length at hpos hlonger houtcome
  generalize m.allocate id size = outcome at houtcome ⊢
  cases houtcome with
  | unknown | tooLarge =>
      exact h.served_refused _ m.space.requests
  | outOfReach requests hallocator hfits hfull =>
      exact h.served_refused _ requests
  | @carved a number r hallocator hfits hroom =>
      have hapart := h.apart _ (mem_of_lookup hroom.reservation)
      have hleft := hroom.left
      simp only [Range.length] at hleft
      refine ⟨⟨h.mapped, fun q hq => ?_⟩, .refl m.space, ?_, ?_⟩
      · rcases mem_put hq with rfl | hq
        · exact hapart
        · exact h.apart q hq
      · intro key block hr
        cases hr
        exact hlonger
      · intro key block hr
        cases hr
        refine hapart.parts ⟨Nat.le_refl _, Nat.le_refl _⟩ ⟨Nat.le_add_right _ _, ?_⟩
        simp only [Range.ofLength]
        omega
  | @reserved a location range space hallocator hfits hfull hlocation hgranted =>
      obtain ⟨hmaps, hagrees, hapart⟩ := hgranted.outside code h.mapped
      have hreserved : ∀ r ∈ m.reservations ++ [(m.next, Reservation.mk range length)],
          code.Apart r.2.range := by
        intro r hr
        rcases List.mem_append.1 hr with hr | hr
        · exact h.apart r hr
        · rw [List.mem_singleton.1 hr]
          exact hapart
      refine ⟨Avoids.sweep ⟨hmaps, hreserved⟩, fun x hx => ?_, ?_, ?_⟩
      · rw [bytes_sweep]
        exact hagrees x hx
      · intro key block hr
        cases hr
        exact hlonger
      · intro key block hr
        cases hr
        refine hapart.parts ⟨Nat.le_refl _, Nat.le_refl _⟩ ⟨Nat.le_refl _, ?_⟩
        rw [hgranted.range_eq]
        exact Nat.add_le_add_left (Nat.le_trans hfits (le_pageUp a.blockSize)) _

end Arena

end CallProfiler.Memory
