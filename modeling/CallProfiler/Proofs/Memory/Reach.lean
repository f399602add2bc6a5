import CallProfiler.Proofs.Lookup
import CallProfiler.Proofs.Memory.Requests

/-!
# Blocks lie near their reference

Whatever memory is occupied, a reservation is taken at a gap whose farther end is within reach of the
farther end of the reference, above it or below.  The blocks that are carved from the reservation later
lie between its ends, whatever became of memory and of the other allocators meanwhile.

**Main statements.**
* `Allocator.near_of_mem_locations`: the places of reservations.
* `Arena.Places.step`, `Arena.Places.run`: the reservation in use is near the reference at every moment.
* `Arena.Places.near_block`: the block handed out is too.
-/

namespace CallProfiler.Memory

/-! ## Gaps -/

theorem le_of_scanUp
    {size candidate location : Nat} {occupied : List Range}
    (h : scanUp size candidate occupied = some location) :
    candidate ≤ location := by
  induction occupied generalizing candidate with
  | nil =>
      rw [scanUp] at h
      split at h
      · cases h
        exact Nat.le_refl _
      · cases h
  | cons r rest ih =>
      rw [scanUp] at h
      split at h
      · exact ih h
      · next hinside =>
          split at h
          · cases h
          · split at h
            · cases h
              exact Nat.le_refl _
            · have hlater := ih h
              omega

theorem scanDown_le
    {size candidate location : Nat} {occupied : List Range}
    (h : scanDown size candidate occupied = some location) :
    location ≤ candidate := by
  induction occupied generalizing candidate with
  | nil =>
      cases h
      exact Nat.le_refl _
  | cons r rest ih =>
      rw [scanDown] at h
      split at h
      · exact ih h
      · next hinside =>
          split at h
          · cases h
            exact Nat.le_refl _
          · split at h
            · have hlater := ih h
              omega
            · cases h

/-- A gap below a location ends there at the latest. -/
theorem gapBelow?_add_le
    {size location found : Nat} {occupied : List Range}
    (h : gapBelow? location occupied size = some found) :
    found + size ≤ location := by
  rw [gapBelow?] at h
  split at h
  · have hdown := scanDown_le h
    omega
  · cases h

/-! ## Near ranges -/

/-- The two ranges together span less than what a signed 32-bit displacement covers in one direction, and
the first one may be mapped. -/
structure Range.Near (r reference : Range) : Prop where
  above : r.finish < reference.start + 2 ^ 31
  below : reference.finish < r.start + 2 ^ 31
  mappable : r.finish ≤ Space.userLimit

namespace Range.Near

variable {r reference : Range}

theorem part
    (h : r.Near reference)
    {start length : Nat}
    (hstart : r.start ≤ start)
    (hfinish : start + length ≤ r.finish) :
    (Range.ofLength start length).Near reference where
  above := Nat.lt_of_le_of_lt hfinish h.above
  below := Nat.lt_of_lt_of_le h.below (Nat.add_le_add_right hstart _)
  mappable := Nat.le_trans hfinish h.mappable

theorem distance_lt
    (h : r.Near reference)
    {a b : Nat}
    (ha : r.contains a = true)
    (hb : reference.contains b = true) :
    ((a : Int) - b).natAbs < 2 ^ 31 := by
  obtain ⟨ha, ha'⟩ := Range.contains_iff.1 ha
  obtain ⟨hb, hb'⟩ := Range.contains_iff.1 hb
  have habove := h.above
  have hbelow := h.below
  omega

end Range.Near

/-- **Where reservations may lie**: both ends of the reference are within reach of both their ends. -/
theorem Allocator.near_of_mem_locations
    {a : Allocator} {occupied : List Range} {location : Nat}
    (horder : a.order = displacementOrder)
    (h : location ∈ a.locations occupied) :
    location + a.blockSize < a.reference.pages.start + 2 ^ 31 ∧
      a.reference.pages.finish < location + 2 ^ 31 := by
  have hreach : reach a.order = 2 ^ 31 := by
    rw [horder]
    rfl
  simp only [locations, hreach, List.mem_append, Option.mem_toList,
    Option.filter_eq_some_iff, withinReach] at h
  rcases h with ⟨hgap, hwithin⟩ | ⟨hgap, hwithin⟩
  · have habove := le_of_scanUp hgap
    rw [if_pos habove, decide_eq_true_eq] at hwithin
    omega
  · have hbelow := gapBelow?_add_le hgap
    split at hwithin
    · omega
    · rw [decide_eq_true_eq] at hwithin
      omega

theorem pageUp_of_dvd
    {n : Nat}
    (h : pageSize ∣ n) :
    pageUp n = n := by
  obtain ⟨pages, rfl⟩ := h
  simp only [pageUp, pageSize]
  omega

namespace Arena

/-! ## What happens to an arena -/

/-- What happens to an arena: requests to it, and whatever else happens to memory. -/
inductive Event where
  | create (reference : Range) (order blockSize : Nat)
  | drop (id : Nat)
  | allocate (id size : Nat)
  | allocateAt (address size : Nat)
  | free (key : Nat)
  | remap (space : Space)

def step (m : Arena) : Event → Arena
  | .create reference order blockSize => (m.createAllocator reference order blockSize).2
  | .drop id => m.dropAllocator id
  | .allocate id size => (m.allocate id size).2
  | .allocateAt address size => (m.allocateAt address size).2
  | .free key => m.free key
  | .remap space => { m with space }

def run (m : Arena) (events : List Event) : Arena := events.foldl step m

/-! ## Requests, taken apart -/

variable {m m' : Arena}

/-- The range is a reservation that the allocator may take, some memory being occupied. -/
def Suits (a : Allocator) (range : Range) : Prop :=
  ∃ occupied, ∃ location ∈ a.locations occupied,
    range = Range.ofLength location (pageUp a.blockSize) ∧ range.finish ≤ Space.userLimit

/-- How a request for a block is answered. -/
inductive Answer (m : Arena) (id size : Nat) : Except Fault (Nat × Block) × Arena → Prop where
  | refused
      (fault : Fault) (space : Space) :
      Answer m id size (.error fault, { m with space })
  | carved
      {a : Allocator} {number address : Nat} {r r' : Reservation}
      (hallocator : (id, a) ∈ m.allocators)
      (hcurrent : a.current = some number)
      (hreservation : (number, r) ∈ m.reservations)
      (hsame : r'.range = r.range)
      (hstart : r.range.start ≤ address)
      (hfinish : address + size ≤ r.range.finish) :
      Answer m id size
        (.ok (m.next, ⟨address, size, number⟩),
          ({ m with reservations := put number r' m.reservations }.addBlock
            ⟨address, size, number⟩).2.2)
  | reserved
      {a : Allocator} {range : Range} {space : Space}
      (hallocator : (id, a) ∈ m.allocators)
      (hfits : size ≤ a.blockSize)
      (hsuits : Suits a range) :
      Answer m id size
        (.ok (m.next + 1, ⟨range.start, size, m.next⟩),
          (addBlock
            { m with
              space
              next := m.next + 1
              reservations := m.reservations ++ [(m.next, { range, used := size })]
              allocators := put id { a with current := some m.next } m.allocators }
            ⟨range.start, size, m.next⟩).2.2.sweep)

theorem answer_allocate
    (m : Arena) (id size : Nat) :
    m.Answer id (blockLength size) (m.allocate id size) := by
  have hpos : 0 < blockLength size := (isLeast_blockLength size).1.1
  have houtcome := outcome_allocate m id size
  generalize blockLength size = length at houtcome hpos ⊢
  generalize m.allocate id size = outcome at houtcome ⊢
  cases houtcome with
  | unknown hallocator =>
      exact .refused _ m.space
  | tooLarge hallocator hlarge =>
      exact .refused _ m.space
  | @carved a number r hallocator hfits hroom =>
      have hfinish : r.range.start + r.used + length ≤ r.range.finish := by
        have hleft := hroom.left
        simp only [Range.length] at hleft
        omega
      exact .carved (mem_of_lookup hallocator) hroom.current (mem_of_lookup hroom.reservation) rfl
        (Nat.le_add_right _ _) hfinish
  | outOfReach requests hallocator hfits hfull =>
      exact .refused _ _
  | reserved hallocator hfits hfull hlocation hgranted =>
      exact .reserved (mem_of_lookup hallocator) hfits
        ⟨_, _, hlocation, hgranted.range_eq, hgranted.finish_le⟩

/-! ## Numbers -/

/-- All numbers of allocators and reservations were given out. -/
structure Numbered (m : Arena) : Prop where
  allocators : ∀ id a, (id, a) ∈ m.allocators → id < m.next
  reservations : ∀ n r, (n, r) ∈ m.reservations → n < m.next

/-- Where an allocator of the second arena comes from. -/
inductive Comes (m m' : Arena) (id : Nat) (a : Allocator) : Prop where
  | kept
      (hold : (id, a) ∈ m.allocators)
  | created
      (hnew : m.next ≤ id)
      (hgiven : id < m'.next)
  /-- It has taken another reservation. -/
  | moved
      {before : Allocator} {number : Nat}
      (hold : (id, before) ∈ m.allocators)
      (hmoved : a = { before with current := some number })
      (hgiven : number < m'.next)
      (hsuits : ∀ r, (number, r) ∈ m'.reservations → Suits before r.range)

/-- What an arena becomes: reservations keep their places, new ones have new numbers, and allocators
change by taking another reservation only. -/
structure Becomes (m m' : Arena) : Prop where
  next : m.next ≤ m'.next
  reservations : ∀ n r, (n, r) ∈ m'.reservations →
    (∃ r', (n, r') ∈ m.reservations ∧ r'.range = r.range) ∨ m.next ≤ n ∧ n < m'.next
  allocators : ∀ id a, (id, a) ∈ m'.allocators → m.Comes m' id a

namespace Becomes

theorem of_subset
    (hnext : m.next ≤ m'.next)
    (hreservations : m'.reservations ⊆ m.reservations)
    (hallocators : m'.allocators ⊆ m.allocators) :
    m.Becomes m' where
  next := hnext
  reservations := fun _ r hr => .inl ⟨r, hreservations hr, rfl⟩
  allocators := fun _ _ ha => .kept (hallocators ha)

theorem sweep
    (h : m.Becomes m') :
    m.Becomes m'.sweep where
  next := h.next
  reservations := fun n r hr => h.reservations n r (List.mem_filter.1 hr).1
  allocators := by
    intro id a ha
    cases h.allocators id a ha with
    | kept hold =>
        exact .kept hold
    | created hnew hgiven =>
        exact .created hnew hgiven
    | moved hold hmoved hgiven hsuits =>
        exact .moved hold hmoved hgiven fun r hr => hsuits r (List.mem_filter.1 hr).1

/-- A reservation more. -/
theorem reservations_append
    {reserved : Reservation} {n : Nat} {r : Reservation}
    (hr : (n, r) ∈ m.reservations ++ [(m.next, reserved)]) :
    (n, r) ∈ m.reservations ∨ n = m.next ∧ r = reserved := by
  rcases List.mem_append.1 hr with hr | hr
  · exact .inl hr
  · cases List.mem_singleton.1 hr
    exact .inr ⟨rfl, rfl⟩

theorem answer
    (h : m.Numbered)
    {id size : Nat} {outcome : Except Fault (Nat × Block) × Arena}
    (hanswer : m.Answer id size outcome) :
    m.Becomes outcome.2 := by
  cases hanswer with
  | refused fault space =>
      exact .of_subset (Nat.le_refl _) (List.Subset.refl _) (List.Subset.refl _)
  | @carved a number address r r' hallocator hcurrent hreservation hsame hstart hfinish =>
      refine ⟨Nat.le_succ _, fun n q hq => .inl ?_, fun _ _ ha => .kept ha⟩
      rcases mem_put hq with heq | hq
      · cases heq
        exact ⟨r, hreservation, hsame.symm⟩
      · exact ⟨q, hq, rfl⟩
  | @reserved a range space hallocator hfits hsuits =>
      refine sweep ⟨Nat.le_add_right _ 2, fun n r hr => ?_, fun id' a' ha => ?_⟩
      · rcases reservations_append hr with hr | ⟨rfl, -⟩
        · exact .inl ⟨r, hr, rfl⟩
        · exact .inr ⟨Nat.le_refl _, Nat.lt_succ_of_lt (Nat.lt_succ_self _)⟩
      · rcases mem_put ha with heq | ha
        · cases heq
          refine .moved hallocator rfl (Nat.lt_succ_of_lt (Nat.lt_succ_self _)) fun r hr => ?_
          rcases reservations_append hr with hr | ⟨-, rfl⟩
          · exact absurd (h.reservations _ r hr) (Nat.lt_irrefl _)
          · exact hsuits
        · exact .kept ha

/-- **What a step can do.** -/
theorem step
    (h : m.Numbered)
    (event : Event) :
    m.Becomes (m.step event) := by
  cases event with
  | create reference order blockSize =>
      refine ⟨Nat.le_succ _, fun n r hr => .inl ⟨r, hr, rfl⟩, fun id a ha => ?_⟩
      rcases List.mem_append.1 ha with ha | ha
      · exact .kept ha
      · cases List.mem_singleton.1 ha
        exact .created (Nat.le_refl _) (Nat.lt_succ_self _)
  | drop id =>
      have hless : m.Becomes { m with allocators := remove id m.allocators } :=
        .of_subset (Nat.le_refl _) (List.Subset.refl _) List.filter_sublist.subset
      exact hless.sweep
  | allocate id size =>
      exact answer h (answer_allocate m id size)
  | allocateAt address size =>
      rw [Arena.step, allocateAt]
      split
      · exact .of_subset (Nat.le_refl _) (List.Subset.refl _) (List.Subset.refl _)
      · refine ⟨Nat.le_add_right _ 2, fun n r hr => ?_, fun _ _ ha => .kept ha⟩
        rcases reservations_append hr with hr | ⟨rfl, -⟩
        · exact .inl ⟨r, hr, rfl⟩
        · exact .inr ⟨Nat.le_refl _, Nat.lt_succ_of_lt (Nat.lt_succ_self _)⟩
  | free key =>
      have hless : m.Becomes { m with blocks := remove key m.blocks } :=
        .of_subset (Nat.le_refl _) (List.Subset.refl _) (List.Subset.refl _)
      exact hless.sweep
  | remap space =>
      exact .of_subset (Nat.le_refl _) (List.Subset.refl _) (List.Subset.refl _)

end Becomes

namespace Numbered

theorem start
    (space : Space) :
    Numbered { space } :=
  ⟨fun _ _ ha => (by cases ha), fun _ _ hr => (by cases hr)⟩

theorem becomes
    (h : m.Numbered)
    (hbecomes : m.Becomes m') :
    m'.Numbered where
  allocators := by
    intro id a ha
    cases hbecomes.allocators id a ha with
    | kept hold =>
        exact Nat.lt_of_lt_of_le (h.allocators id a hold) hbecomes.next
    | created hnew hgiven =>
        exact hgiven
    | moved hold hmoved hgiven hsuits =>
        exact Nat.lt_of_lt_of_le (h.allocators id _ hold) hbecomes.next
  reservations := by
    intro n r hr
    rcases hbecomes.reservations n r hr with ⟨r', hr', -⟩ | ⟨-, hgiven⟩
    · exact Nat.lt_of_lt_of_le (h.reservations n r' hr') hbecomes.next
    · exact hgiven

theorem run
    (h : m.Numbered)
    (events : List Event) :
    (m.run events).Numbered := by
  induction events generalizing m with
  | nil =>
      exact h
  | cons event rest ih =>
      exact ih (h.becomes (.step h event))

end Numbered

/-! ## One allocator among others -/

/-- The allocator was made like this, and its reservation in use is near the reference. -/
structure Serves (m : Arena) (reference : Range) (blockSize : Nat) (a : Allocator) : Prop where
  reference_eq : a.reference = reference
  order_eq : a.order = Allocator.displacementOrder
  blockSize_eq : a.blockSize = blockSize
  given : ∀ n, a.current = some n → n < m.next
  near : ∀ n r, a.current = some n → (n, r) ∈ m.reservations → r.range.Near reference.pages

/-- The number stands for an allocator that was made like this, if for any. -/
structure Places (m : Arena) (id : Nat) (reference : Range) (blockSize : Nat) : Prop where
  numbered : m.Numbered
  given : id < m.next
  serves : ∀ a, (id, a) ∈ m.allocators → m.Serves reference blockSize a

variable {id blockSize : Nat} {reference : Range}

theorem Serves.near_of_suits
    {a : Allocator} {range : Range}
    (h : m.Serves reference blockSize a)
    (hpages : pageSize ∣ blockSize)
    (hsuits : Suits a range) :
    range.Near reference.pages := by
  obtain ⟨occupied, location, hlocation, rfl, hmappable⟩ := hsuits
  obtain ⟨habove, hbelow⟩ := Allocator.near_of_mem_locations h.order_eq hlocation
  rw [h.reference_eq] at habove hbelow
  refine ⟨?_, hbelow, hmappable⟩
  rw [h.blockSize_eq] at habove ⊢
  rw [pageUp_of_dvd hpages]
  exact habove

namespace Places

theorem created
    (h : m.Numbered)
    (reference : Range) (blockSize : Nat) :
    (m.createAllocator reference Allocator.displacementOrder blockSize).2.Places m.next reference
      blockSize where
  numbered := h.becomes (.step h (.create reference Allocator.displacementOrder blockSize))
  given := Nat.lt_succ_self _
  serves := by
    intro a ha
    rcases List.mem_append.1 ha with ha | ha
    · exact absurd (h.allocators _ a ha) (Nat.lt_irrefl _)
    · cases List.mem_singleton.1 ha
      exact ⟨rfl, rfl, rfl, fun _ hn => (by cases hn), fun _ _ hn => (by cases hn)⟩

/-- **A step** leaves the reservation in use near the reference. -/
theorem step
    (h : m.Places id reference blockSize)
    (hpages : pageSize ∣ blockSize)
    (event : Event) :
    (m.step event).Places id reference blockSize := by
  have hbecomes := Becomes.step h.numbered event
  refine ⟨h.numbered.becomes hbecomes, Nat.lt_of_lt_of_le h.given hbecomes.next, fun a ha => ?_⟩
  cases hbecomes.allocators id a ha with
  | kept hold =>
      have hserves := h.serves a hold
      refine ⟨hserves.reference_eq, hserves.order_eq, hserves.blockSize_eq,
        fun n hn => Nat.lt_of_lt_of_le (hserves.given n hn) hbecomes.next, fun n r hn hr => ?_⟩
      rcases hbecomes.reservations n r hr with ⟨r', hr', hsame⟩ | ⟨hnew, -⟩
      · rw [← hsame]
        exact hserves.near n r' hn hr'
      · exact absurd (hserves.given n hn) (Nat.not_lt.2 hnew)
  | created hnew hgiven =>
      exact absurd h.given (Nat.not_lt.2 hnew)
  | @moved before number hold hmoved hgiven hsuits =>
      have hserves := h.serves before hold
      subst hmoved
      refine ⟨hserves.reference_eq, hserves.order_eq, hserves.blockSize_eq, ?_, ?_⟩
      · intro n hn
        cases hn
        exact hgiven
      · intro n r hn hr
        cases hn
        exact hserves.near_of_suits hpages (hsuits r hr)

theorem run
    (h : m.Places id reference blockSize)
    (hpages : pageSize ∣ blockSize)
    (events : List Event) :
    (m.run events).Places id reference blockSize := by
  induction events generalizing m with
  | nil =>
      exact h
  | cons event rest ih =>
      exact ih (h.step hpages event)

/-- **The block** handed out is near the reference, and as long as it was asked for. -/
theorem near_block
    (h : m.Places id reference blockSize)
    (hpages : pageSize ∣ blockSize)
    {size key : Nat} {block : Block}
    (hgrant : (m.allocate id size).1 = .ok (key, block)) :
    (Range.ofLength block.address block.length).Near reference.pages ∧ size ≤ block.length := by
  have hanswer := answer_allocate m id size
  have hlonger := le_blockLength size
  generalize m.allocate id size = outcome at hanswer hgrant
  cases hanswer with
  | refused fault space =>
      cases hgrant
  | @carved a number address r r' hallocator hcurrent hreservation hsame hstart hfinish =>
      cases hgrant
      exact ⟨((h.serves a hallocator).near number r hcurrent hreservation).part hstart hfinish, hlonger⟩
  | @reserved a range space hallocator hfits hsuits =>
      cases hgrant
      have hnear := (h.serves a hallocator).near_of_suits hpages hsuits
      obtain ⟨occupied, location, -, rfl, -⟩ := hsuits
      refine ⟨hnear.part (Nat.le_refl _) (Nat.add_le_add_left ?_ location), hlonger⟩
      exact Nat.le_trans hfits (le_pageUp a.blockSize)

end Places

end Arena

end CallProfiler.Memory
