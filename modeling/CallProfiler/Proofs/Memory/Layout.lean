import CallProfiler.Proofs.Memory.Blocks
import CallProfiler.Proofs.Memory.Reach

/-!
# How blocks are laid out

Blocks are carved front to back from reservations that have no address in common, so they are kept apart
whatever is allocated, given back or refused, and whenever reservations are replaced and released.

**Main statements.**
* `Arena.Laid.step`, `Arena.Laid.run`: blocks are carved apart from the used parts of mapped reservations.
* `Arena.mem_blocks_run_iff`: the blocks in use are those granted and not given back since.
* `Arena.Hosts.run`: an allocator stays what it was made.
* `Arena.blocks_are_kept_apart`: what holds of every request and of the blocks in use.
-/

namespace CallProfiler.Memory

/-- The addresses of a block. -/
def Block.range (b : Block) : Range := .ofLength b.address b.length

/-- A reservation is mapped, and used in whole units up to its end at most. -/
structure Reservation.Sound (r : Reservation) (s : Space) : Prop where
  start_dvd : 16 ∣ r.range.start
  used_dvd : 16 ∣ r.used
  filled : r.range.start + r.used ≤ r.range.finish
  mapped : s.Maps r.range

/-- The block starts with a unit, and was carved from what is used of the reservation. -/
structure Block.LiesIn (b : Block) (r : Reservation) : Prop where
  aligned : 16 ∣ b.address
  start_le : r.range.start ≤ b.address
  le_used : b.address + b.length ≤ r.range.start + r.used

namespace Arena

/-! ## The invariant -/

/-- Reservations are mapped and apart, and blocks are carved from their used parts, apart too. -/
structure Laid (m : Arena) : Prop where
  keys : (m.reservations.map (·.1)).Nodup
  sound : ∀ n r, (n, r) ∈ m.reservations → r.Sound m.space
  apart : ∀ n r n' r', (n, r) ∈ m.reservations → (n', r') ∈ m.reservations → n ≠ n' →
    r.range.Apart r'.range
  placed : ∀ e ∈ m.blocks, ∃ r, (e.2.reservation, r) ∈ m.reservations ∧ e.2.LiesIn r
  blocks : m.blocks.Pairwise fun e f => e.2.range.Apart f.2.range

namespace Laid

variable {m : Arena} {b : Block} {r : Reservation} {number size : Nat}

theorem start
    (space : Space) :
    Laid { space } :=
  ⟨.nil, fun _ _ hr => (by cases hr), fun _ _ _ _ hr => (by cases hr), fun _ he => (by cases he), .nil⟩

/-- Only reservations and blocks matter, and that reservations are mapped. -/
theorem congr
    {m' : Arena}
    (h : m.Laid)
    (hreservations : m'.reservations = m.reservations)
    (hblocks : m'.blocks = m.blocks)
    (hmapped : ∀ n r, (n, r) ∈ m.reservations → m'.space.Maps r.range) :
    m'.Laid where
  keys := by
    rw [hreservations]
    exact h.keys
  sound := by
    intro n r hr
    rw [hreservations] at hr
    exact { h.sound n r hr with mapped := hmapped n r hr }
  apart := by
    rw [hreservations]
    exact h.apart
  placed := by
    rw [hreservations, hblocks]
    exact h.placed
  blocks := by
    rw [hblocks]
    exact h.blocks

/-- Releasing what nothing holds leaves the other reservations mapped. -/
theorem sweep
    (h : m.Laid) :
    m.sweep.Laid where
  keys := h.keys.sublist (List.filter_sublist.map _)
  sound := by
    intro n r hr
    obtain ⟨hr, hheld⟩ := List.mem_filter.1 hr
    refine { h.sound n r hr with mapped := maps_unmapAll (h.sound n r hr).mapped fun q hq => ?_ }
    obtain ⟨hq, hloose⟩ := List.mem_filter.1 hq
    refine h.apart n r q.1 q.2 hr hq fun hsame => ?_
    subst hsame
    rw [hheld] at hloose
    cases hloose
  apart := fun n r n' r' hr hr' => h.apart n r n' r' (List.mem_filter.1 hr).1 (List.mem_filter.1 hr').1
  placed := by
    intro e he
    obtain ⟨r, hr, hlies⟩ := h.placed e he
    exact ⟨r, List.mem_filter.2 ⟨hr, isHeld_of_mem he⟩, hlies⟩
  blocks := h.blocks

theorem free
    (h : m.Laid)
    (key : Nat) :
    (m.free key).Laid := by
  have hless : Laid { m with blocks := remove key m.blocks } :=
    { h with
      placed := fun e he => h.placed e (List.mem_filter.1 he).1
      blocks := h.blocks.sublist List.filter_sublist }
  exact hless.sweep

theorem dropAllocator
    (h : m.Laid)
    (id : Nat) :
    (m.dropAllocator id).Laid := by
  have hless : Laid { m with allocators := remove id m.allocators } :=
    h.congr rfl rfl fun n r hr => (h.sound n r hr).mapped
  exact hless.sweep

/-! ### Requests -/

/-- Blocks of two reservations are apart. -/
theorem apart_of_ne
    (h : m.Laid)
    {c : Block} {q : Reservation}
    (hr : (b.reservation, r) ∈ m.reservations)
    (hb : b.LiesIn r)
    (hq : (c.reservation, q) ∈ m.reservations)
    (hc : c.LiesIn q)
    (hne : b.reservation ≠ c.reservation) :
    b.range.Apart c.range :=
  (h.apart _ r _ q hr hq hne).parts
    ⟨hb.start_le, Nat.le_trans hb.le_used (h.sound _ r hr).filled⟩
    ⟨hc.start_le, Nat.le_trans hc.le_used (h.sound _ q hq).filled⟩

theorem addBlock
    (h : m.Laid)
    (hr : (b.reservation, r) ∈ m.reservations)
    (hb : b.LiesIn r)
    (hnew : ∀ e ∈ m.blocks, e.2.range.Apart b.range) :
    (m.addBlock b).2.2.Laid where
  keys := h.keys
  sound := h.sound
  apart := h.apart
  placed := by
    intro e he
    rcases List.mem_append.1 he with he | he
    · exact h.placed e he
    · rw [List.mem_singleton.1 he]
      exact ⟨r, hr, hb⟩
  blocks := by
    refine List.pairwise_append.2 ⟨h.blocks, List.pairwise_singleton _ _, fun e he f hf => ?_⟩
    rw [List.mem_singleton.1 hf]
    exact hnew e he

/-- More of a reservation is used. -/
theorem use
    (h : m.Laid)
    (hr : (number, r) ∈ m.reservations)
    (hsize : 16 ∣ size)
    (hleft : r.used + size ≤ r.range.length) :
    Laid { m with
      reservations := put number { r with used := r.used + size } m.reservations } := by
  have hkey : number ∈ m.reservations.map (·.1) := List.mem_map_of_mem hr
  have hfrom {n : Nat} {q : Reservation}
      (hq : (n, q) ∈ put number { r with used := r.used + size } m.reservations) :
      ∃ q', (n, q') ∈ m.reservations ∧ q.range = q'.range := by
    rcases (mem_put_iff h.keys hkey).1 hq with heq | ⟨-, hq⟩
    · cases heq
      exact ⟨r, hr, rfl⟩
    · exact ⟨q, hq, rfl⟩
  refine ⟨?_, ?_, ?_, ?_, h.blocks⟩
  · rw [keys_put, if_pos hkey]
    exact h.keys
  · intro n q hq
    rcases (mem_put_iff h.keys hkey).1 hq with heq | ⟨-, hq⟩
    · cases heq
      have hsound := h.sound number r hr
      have hfilled := hsound.filled
      simp only [Range.length] at hleft
      exact ⟨hsound.start_dvd, Nat.dvd_add hsound.used_dvd hsize, by simp only; omega, hsound.mapped⟩
    · exact h.sound n q hq
  · intro n q n' q' hq hq' hne
    obtain ⟨p, hp, hsame⟩ := hfrom hq
    obtain ⟨p', hp', hsame'⟩ := hfrom hq'
    rw [hsame, hsame']
    exact h.apart n p n' p' hp hp' hne
  · intro e he
    obtain ⟨q, hq, hlies⟩ := h.placed e he
    by_cases hn : e.2.reservation = number
    · have hsame := List.inj_on_of_nodup_map h.keys hq hr hn
      cases hsame
      have hle := hlies.le_used
      exact ⟨{ r with used := r.used + size }, (mem_put_iff h.keys hkey).2 (.inl rfl),
        hlies.aligned, hlies.start_le, by simp only; omega⟩
    · exact ⟨q, (mem_put_iff h.keys hkey).2 (.inr ⟨hn, hq⟩), hlies⟩

/-- **A block is carved** from the reservation in use. -/
theorem carve
    (h : m.Laid)
    (hr : (number, r) ∈ m.reservations)
    (hsize : 16 ∣ size)
    (hleft : r.used + size ≤ r.range.length) :
    ({ m with reservations := put number { r with used := r.used + size } m.reservations }.addBlock
      ⟨r.range.start + r.used, size, number⟩).2.2.Laid := by
  have hsound := h.sound number r hr
  have hkey : number ∈ m.reservations.map (·.1) := List.mem_map_of_mem hr
  refine (h.use hr hsize hleft).addBlock (r := { r with used := r.used + size })
    ((mem_put_iff h.keys hkey).2 (.inl rfl))
    ⟨Nat.dvd_add hsound.start_dvd hsound.used_dvd, Nat.le_add_right _ _, by simp only; omega⟩ ?_
  intro e he
  obtain ⟨q, hq, hlies⟩ := h.placed e he
  by_cases hn : e.2.reservation = number
  · have hsame := List.inj_on_of_nodup_map h.keys hq hr hn
    cases hsame
    exact Range.apart_of_le hlies.le_used
  · have hfinish := hsound.filled
    simp only [Range.length] at hleft
    refine (h.apart _ q _ r hq hr hn).parts
      ⟨hlies.start_le, Nat.le_trans hlies.le_used (h.sound _ q hq).filled⟩ ⟨Nat.le_add_right _ _, ?_⟩
    simp only [Block.range, Range.ofLength]
    omega

/-- **A block is carved** from a new reservation. -/
theorem reserve
    (hnumbered : m.Numbered)
    (h : m.Laid)
    {location blockSize : Nat} {range : Range} {space : Space}
    (hsize : 16 ∣ size)
    (hfits : size ≤ blockSize)
    (hgranted : m.space.Granted space location blockSize range)
    (allocators : List (Nat × Allocator)) :
    (Arena.addBlock
      { m with
        space
        next := m.next + 1
        reservations := m.reservations ++ [(m.next, { range, used := size })]
        allocators }
      ⟨range.start, size, m.next⟩).2.2.Laid := by
  have hnew : m.next ∉ m.reservations.map (·.1) := by
    intro hmem
    obtain ⟨⟨n, r⟩, hr, hn⟩ := List.mem_map.1 hmem
    exact absurd (hnumbered.reservations n r hr) (hn ▸ Nat.lt_irrefl _)
  have hunit : 16 ∣ range.start := by
    rw [hgranted.range_eq]
    exact Nat.dvd_trans (by decide) hgranted.aligned
  have henough : range.start + size ≤ range.finish := by
    rw [hgranted.range_eq]
    exact Nat.add_le_add_left (Nat.le_trans hfits (le_pageUp blockSize)) _
  have houtside (n : Nat) (r : Reservation) (hr : (n, r) ∈ m.reservations) :
      space.Maps r.range ∧ m.space.Agrees space r.range ∧ r.range.Apart range :=
    hgranted.outside r.range (h.sound n r hr).mapped
  have hreserved : Laid
      { m with
        space
        next := m.next + 1
        reservations := m.reservations ++ [(m.next, { range, used := size })]
        allocators } := by
    refine ⟨?_, ?_, ?_, ?_, h.blocks⟩
    · rw [List.map_append]
      exact List.Nodup.append h.keys (List.nodup_singleton _) (List.disjoint_singleton.2 hnew)
    · intro n r hr
      rcases Becomes.reservations_append hr with hr | ⟨-, rfl⟩
      · exact { h.sound n r hr with mapped := (houtside n r hr).1 }
      · exact ⟨hunit, hsize, henough, hgranted.mapped⟩
    · intro n r n' r' hr hr' hne
      rcases Becomes.reservations_append hr with hr | ⟨rfl, rfl⟩
      · rcases Becomes.reservations_append hr' with hr' | ⟨-, rfl⟩
        · exact h.apart n r n' r' hr hr' hne
        · exact (houtside n r hr).2.2
      · rcases Becomes.reservations_append hr' with hr' | ⟨rfl, rfl⟩
        · exact (houtside n' r' hr').2.2.symm
        · exact absurd rfl hne
    · intro e he
      obtain ⟨r, hr, hlies⟩ := h.placed e he
      exact ⟨r, List.mem_append_left _ hr, hlies⟩
  have hlies : Block.LiesIn ⟨range.start, size, m.next⟩ { range, used := size } :=
    ⟨hunit, Nat.le_refl _, Nat.le_refl _⟩
  have hlast : (m.next, { range, used := size : Reservation }) ∈
      m.reservations ++ [(m.next, { range, used := size })] :=
    List.mem_append_right _ List.mem_cons_self
  refine hreserved.addBlock hlast hlies fun e he => ?_
  obtain ⟨r, hr, hlies'⟩ := hreserved.placed e he
  obtain ⟨r', hr', -⟩ := h.placed e he
  refine hreserved.apart_of_ne hr hlies' hlast hlies fun (hn : e.2.reservation = m.next) => hnew ?_
  rw [← hn]
  exact List.mem_map_of_mem hr'

/-- **A request** leaves blocks laid out, whether it is granted or refused. -/
theorem allocate
    (hnumbered : m.Numbered)
    (h : m.Laid)
    (id size : Nat) :
    (m.allocate id size).2.Laid := by
  have hunits : 16 ∣ blockLength size := (isLeast_blockLength size).1.2.1
  have houtcome := outcome_allocate m id size
  generalize m.allocate id size = outcome at houtcome ⊢
  cases houtcome with
  | unknown hallocator =>
      exact h
  | tooLarge hallocator hlarge =>
      exact h
  | carved hallocator hfits hroom =>
      exact h.carve (mem_of_lookup hroom.reservation) hunits hroom.left
  | outOfReach requests hallocator hfits hfull =>
      exact h.congr rfl rfl fun n r hr => (h.sound n r hr).mapped
  | reserved hallocator hfits hfull hlocation hgranted =>
      exact (h.reserve hnumbered hunits hfits hgranted _).sweep

end Laid

/-! ## Runs -/

/-- Nothing but the arena's allocators hands out its blocks, and whatever else happens to memory leaves
its reservations mapped. -/
def Event.Spares (m : Arena) : Event → Prop
  | .allocateAt _ _ => False
  | .remap space => ∀ n r, (n, r) ∈ m.reservations → space.Maps r.range
  | _ => True

/-- All that happens spares the arena. -/
def Spared (m : Arena) : List Event → Prop
  | [] => True
  | event :: rest => event.Spares m ∧ Spared (m.step event) rest

variable {m : Arena}

/-- **A step** leaves blocks laid out. -/
theorem Laid.step
    (hnumbered : m.Numbered)
    (h : m.Laid)
    {event : Event}
    (hspares : event.Spares m) :
    (m.step event).Laid := by
  cases event with
  | create reference order blockSize =>
      exact h.congr rfl rfl fun n r hr => (h.sound n r hr).mapped
  | drop id =>
      exact h.dropAllocator id
  | allocate id size =>
      exact h.allocate hnumbered id size
  | allocateAt address size =>
      exact absurd hspares id
  | free key =>
      exact h.free key
  | remap space =>
      exact h.congr rfl rfl hspares

theorem Laid.run
    (hnumbered : m.Numbered)
    (h : m.Laid)
    {events : List Event}
    (hspared : m.Spared events) :
    (m.run events).Laid := by
  induction events generalizing m with
  | nil =>
      exact h
  | cons event rest ih =>
      exact ih (hnumbered.becomes (.step hnumbered event)) (h.step hnumbered hspared.1) hspared.2

/-! ## Blocks in use -/

/-- A request for `size` bytes was granted the block, which has not been given back since. -/
def InUse (m : Arena) (events : List Event) (size key : Nat) (block : Block) : Prop :=
  ∃ before id after, events = before ++ .allocate id size :: after ∧
    ((m.run before).allocate id size).1 = .ok (key, block) ∧ .free key ∉ after

theorem inUse_cons
    {event : Event} {rest : List Event} {size key : Nat} {block : Block} :
    m.InUse (event :: rest) size key block ↔
      (∃ id, event = .allocate id size ∧ (m.allocate id size).1 = .ok (key, block) ∧
        .free key ∉ rest) ∨
        (m.step event).InUse rest size key block := by
  constructor
  · rintro ⟨before, id, after, hsplit, hgrant, hkept⟩
    cases before with
    | nil =>
        cases hsplit
        exact .inl ⟨id, rfl, hgrant, hkept⟩
    | cons first before =>
        cases hsplit
        exact .inr ⟨before, id, after, rfl, hgrant, hkept⟩
  · rintro (⟨id, rfl, hgrant, hkept⟩ | ⟨before, id, after, rfl, hgrant, hkept⟩)
    · exact ⟨[], id, rest, rfl, hgrant, hkept⟩
    · exact ⟨event :: before, id, after, rfl, hgrant, hkept⟩

/-- A request adds the block that it is granted to those in use. -/
theorem mem_blocks_allocate
    {id size : Nat} {e : Nat × Block} :
    e ∈ (m.allocate id size).2.blocks ↔ e ∈ m.blocks ∨ (m.allocate id size).1 = .ok e := by
  have houtcome := outcome_allocate m id size
  generalize m.allocate id size = outcome at houtcome ⊢
  cases houtcome with
  | unknown | tooLarge | outOfReach =>
      simp
  | carved | reserved =>
      simp only [sweep, addBlock, List.mem_append, List.mem_singleton, Except.ok.injEq]
      exact or_congr_right eq_comm

theorem mem_blocks_step
    {event : Event} {e : Nat × Block}
    (hspares : event.Spares m) :
    e ∈ (m.step event).blocks ↔
      (e ∈ m.blocks ∧ event ≠ .free e.1) ∨
        ∃ id size, event = .allocate id size ∧ (m.allocate id size).1 = .ok e := by
  cases event with
  | create | drop | remap =>
      simp [step, createAllocator, dropAllocator, sweep]
  | allocate id size =>
      simp [step, mem_blocks_allocate]
  | allocateAt address size =>
      exact absurd hspares id
  | free key =>
      simp [step, mem_blocks_free, eq_comm]

/-- **The blocks in use** are those that were in use and those that were granted, less those given back
since. -/
theorem mem_blocks_run_iff
    {events : List Event} {key : Nat} {block : Block}
    (hspared : m.Spared events) :
    (key, block) ∈ (m.run events).blocks ↔
      ((key, block) ∈ m.blocks ∧ .free key ∉ events) ∨ ∃ size, m.InUse events size key block := by
  induction events generalizing m with
  | nil =>
      simp [run, InUse]
  | cons event rest ih =>
      have hrun : m.run (event :: rest) = (m.step event).run rest := rfl
      simp only [hrun, ih hspared.2, mem_blocks_step hspared.1, inUse_cons, List.mem_cons, not_or]
      constructor
      · rintro (⟨⟨hold, hother⟩ | ⟨id, size, rfl, hgrant⟩, hkept⟩ | ⟨size, huse⟩)
        · exact .inl ⟨hold, Ne.symm hother, hkept⟩
        · exact .inr ⟨size, .inl ⟨id, rfl, hgrant, hkept⟩⟩
        · exact .inr ⟨size, .inr huse⟩
      · rintro (⟨hold, hother, hkept⟩ | ⟨size, ⟨id, rfl, hgrant, hkept⟩ | huse⟩)
        · exact .inl ⟨.inl ⟨hold, Ne.symm hother⟩, hkept⟩
        · exact .inl ⟨.inr ⟨id, size, rfl, hgrant⟩, hkept⟩
        · exact .inr ⟨size, huse⟩

/-- A block that is granted is as long as its request, rounded up. -/
theorem isLeast_length
    {id size key : Nat} {block : Block}
    (hgrant : (m.allocate id size).1 = .ok (key, block)) :
    IsLeast (lengths size) block.length := by
  have hlength := isLeast_blockLength size
  have houtcome := outcome_allocate m id size
  generalize m.allocate id size = outcome at houtcome hgrant
  cases houtcome with
  | unknown | tooLarge | outOfReach =>
      cases hgrant
  | carved | reserved =>
      cases hgrant
      exact hlength

/-! ## One allocator among others -/

/-- The number stands for an allocator that was made like this. -/
def Hosts (m : Arena) (id : Nat) (reference : Range) (order blockSize : Nat) : Prop :=
  ∃ current, m.allocators.lookup id = some { reference, order, blockSize, current }

section Hosts

variable {id order blockSize : Nat} {reference : Range}

theorem Numbered.hosts_created
    (h : m.Numbered)
    (reference : Range) (order blockSize : Nat) :
    (m.createAllocator reference order blockSize).2.Hosts m.next reference order blockSize := by
  have hnew : m.allocators.lookup m.next = none := by
    refine List.lookup_eq_none_iff.2 fun p hp => ?_
    simpa using Nat.ne_of_gt (h.allocators p.1 p.2 hp)
  exact ⟨none, by simp [createAllocator, List.lookup_append, hnew]⟩

/-- **A step** leaves an allocator what it was made, unless it is dropped. -/
theorem Hosts.step
    (h : m.Hosts id reference order blockSize)
    {event : Event}
    (hkept : event ≠ .drop id) :
    (m.step event).Hosts id reference order blockSize := by
  obtain ⟨current, hlookup⟩ := h
  cases event with
  | create reference' order' blockSize' =>
      exact ⟨current, by simp [Arena.step, createAllocator, List.lookup_append, hlookup]⟩
  | drop other =>
      have hother : id ≠ other := fun hsame => hkept (by rw [hsame])
      exact ⟨current, (lookup_remove_of_ne hother).trans hlookup⟩
  | allocate other size =>
      have houtcome := outcome_allocate m other size
      simp only [Arena.step]
      generalize m.allocate other size = outcome at houtcome ⊢
      cases houtcome with
      | unknown | tooLarge | outOfReach | carved =>
          exact ⟨current, hlookup⟩
      | @reserved a location range space hallocator hfits hfull hlocation hgranted =>
          simp only [Hosts, sweep, addBlock, lookup_put]
          split
          · next hsame =>
              subst hsame
              rw [hlookup] at hallocator
              cases hallocator
              exact ⟨some m.next, rfl⟩
          · exact ⟨current, hlookup⟩
  | allocateAt address size =>
      rw [Arena.step, allocateAt]
      split <;> exact ⟨current, hlookup⟩
  | free key =>
      exact ⟨current, hlookup⟩
  | remap space =>
      exact ⟨current, hlookup⟩

theorem Hosts.run
    (h : m.Hosts id reference order blockSize)
    {events : List Event}
    (hkept : .drop id ∉ events) :
    (m.run events).Hosts id reference order blockSize := by
  induction events generalizing m with
  | nil =>
      exact h
  | cons event rest ih =>
      rw [List.mem_cons, not_or] at hkept
      exact ih (h.step (Ne.symm hkept.1)) hkept.2

/-- An allocator refuses a request as too large exactly when the block would be longer than what it
reserves. -/
theorem Hosts.tooLarge_iff
    (h : m.Hosts id reference order blockSize)
    {size length requested limit : Nat}
    (hlength : IsLeast (lengths size) length) :
    (m.allocate id size).1 = .error (.tooLarge requested limit) ↔
      requested = length ∧ limit = blockSize ∧ blockSize < length := by
  obtain ⟨current, hlookup⟩ := h
  obtain rfl := hlength.unique (isLeast_blockLength size)
  constructor
  · intro hrefused
    have houtcome := outcome_allocate m id size
    generalize m.allocate id size = outcome at houtcome hrefused
    cases houtcome with
    | unknown | carved | outOfReach | reserved =>
        cases hrefused
    | tooLarge hallocator hlarge =>
        rw [hlookup] at hallocator
        cases hallocator
        cases hrefused
        exact ⟨rfl, rfl, hlarge⟩
  · rintro ⟨rfl, rfl, hlarge⟩
    rw [allocate_of_large hlookup hlarge]

end Hosts

/-! ## Failures -/

/-- A request that fails changes nothing but the number of requests that the system was asked. -/
theorem eq_of_allocate_eq_error
    {m' : Arena} {id size : Nat} {fault : Fault}
    (h : m.allocate id size = (.error fault, m')) :
    ∃ requests, m' = { m with space := { m.space with requests } } := by
  have houtcome := outcome_allocate m id size
  rw [h] at houtcome
  cases houtcome with
  | unknown | tooLarge =>
      exact ⟨m.space.requests, rfl⟩
  | outOfReach requests hallocator hfits hfull =>
      exact ⟨requests, rfl⟩

/-- A block of a reservation that is there is granted wherever the allocators and reservations are the
same. -/
theorem allocate_eq_ok_of_same
    (hnumbered : m.Numbered)
    {m' : Arena} {id size : Nat} {granted : Nat × Block} {r : Reservation}
    (hallocators : m'.allocators = m.allocators)
    (hreservations : m'.reservations = m.reservations)
    (hnext : m'.next = m.next)
    (hgrant : (m.allocate id size).1 = .ok granted)
    (hold : (granted.2.reservation, r) ∈ m.reservations) :
    (m'.allocate id size).1 = .ok granted := by
  have houtcome := outcome_allocate m id size
  generalize m.allocate id size = outcome at houtcome hgrant
  cases houtcome with
  | unknown | tooLarge | outOfReach =>
      cases hgrant
  | carved hallocator hfits hroom =>
      cases hgrant
      have hroom' : m'.HasRoom _ _ _ _ := ⟨hroom.current, hreservations ▸ hroom.reservation, hroom.left⟩
      rw [allocate_of_room (hallocators ▸ hallocator) hfits hroom', hnext]
  | reserved =>
      cases hgrant
      exact absurd (hnumbered.reservations _ r hold) (Nat.lt_irrefl _)

/-- **Blocks are kept apart.**  Whatever allocators are made and dropped, whatever is asked of them and
given back, whichever reservations the system denies, and whatever else happens to memory but for the
reservations: the blocks in use have no address in common; each starts with a unit, is as long as its
request, rounded up to whole units, and lies in a reservation that is mapped.  A request is refused as too
large exactly when the block would be longer than what its allocator reserves.  A request that fails
leaves everything as it was, and whatever could be carved from a reservation before still can. -/
theorem blocks_are_kept_apart
    {space : Space} {events : List Event}
    (hspared : Spared { space } events) :
    let m := run { space } events
    (∀ size : UInt64, size.toNat ≤ 2 ^ 64 - 16 →
      IsLeast (lengths size.toNat) (blockLengthWord size).toNat) ∧
    (∀ key block, (key, block) ∈ m.blocks ↔ ∃ size, InUse { space } events size key block) ∧
    (m.blocks.Pairwise fun e f => e.2.range.Apart f.2.range) ∧
    (∀ size key block, InUse { space } events size key block →
      16 ∣ block.address ∧ IsLeast (lengths size) block.length ∧
        ∃ r, (block.reservation, r) ∈ m.reservations ∧ r.range.start ≤ block.address ∧
          block.address + block.length ≤ r.range.finish ∧ m.space.Maps r.range) ∧
    (∀ before after reference order blockSize,
      events = before ++ .create reference order blockSize :: after →
      .drop (run { space } before).next ∉ after →
      ∀ size length, IsLeast (lengths size) length → ∀ requested limit,
        (m.allocate (run { space } before).next size).1 = .error (.tooLarge requested limit) ↔
          requested = length ∧ limit = blockSize ∧ blockSize < length) ∧
    ∀ id size fault m', m.allocate id size = (.error fault, m') →
      (∃ requests, m' = { m with space := { m.space with requests } }) ∧
        ∀ id' size' granted r, (m.allocate id' size').1 = .ok granted →
          (granted.2.reservation, r) ∈ m.reservations →
            (m'.allocate id' size').1 = .ok granted := by
  have hnumbered := (Numbered.start space).run events
  have hlaid := (Laid.start space).run (.start space) hspared
  have hblocks (key : Nat) (block : Block) :
      (key, block) ∈ (run { space } events).blocks ↔
        ∃ size, InUse { space } events size key block := by
    rw [mem_blocks_run_iff hspared]
    simp
  refine ⟨fun size hsize => ?_, hblocks, hlaid.blocks, ?_, ?_, ?_⟩
  · rw [toNat_blockLengthWord hsize]
    exact isLeast_blockLength size.toNat
  · intro size key block huse
    obtain ⟨r, hr, hlies⟩ := hlaid.placed _ ((hblocks key block).2 ⟨size, huse⟩)
    have hsound := hlaid.sound _ r hr
    obtain ⟨before, id, after, -, hgrant, -⟩ := huse
    exact ⟨hlies.aligned, isLeast_length hgrant, r, hr, hlies.start_le,
      Nat.le_trans hlies.le_used hsound.filled, hsound.mapped⟩
  · rintro before after reference order blockSize rfl hkept size length hlength requested limit
    have hmade := ((Numbered.start space).run before).hosts_created reference order blockSize
    have hhosts := hmade.run hkept
    rw [run, List.foldl_append]
    exact hhosts.tooLarge_iff hlength
  · intro id size fault m' hfailed
    obtain ⟨requests, rfl⟩ := eq_of_allocate_eq_error hfailed
    exact ⟨⟨requests, rfl⟩, fun id' size' granted r hgrant hold =>
      allocate_eq_ok_of_same hnumbered rfl rfl rfl hgrant hold⟩

/-- The second reservation is denied above the reference and granted below it; the first one is released
with its only block, and the third takes its place. -/
theorem blocks_are_kept_apart_reusing_addresses :
    let first : Arena := { space := { Space.empty with denies := fun request => request == 2 } }
    let events : List Event :=
      [.create ⟨0x400000, 0x401000⟩ 32 0x1000, .allocate 0 100, .allocate 0 4080, .allocate 0 10, .free 2,
        .allocate 0 4081]
    ((first.run events).blocks.map fun e => (e.1, e.2.reservation, e.2.range)) =
      [(4, 3, ⟨0x3ff000, 0x3ffff0⟩), (5, 3, ⟨0x3ffff0, 0x400000⟩), (7, 6, ⟨0x401000, 0x402000⟩)] ∧
      (first.run events).blocks.Pairwise fun e f => e.2.range.Apart f.2.range := by
  intro first events
  have hspared : first.Spared events := ⟨trivial, trivial, trivial, trivial, trivial, trivial, trivial⟩
  exact ⟨by decide +kernel, (blocks_are_kept_apart hspared).2.2.1⟩

end Arena

end CallProfiler.Memory
