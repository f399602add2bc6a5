import CallProfiler.Proofs.Memory.Requests

/-!
# Blocks in use

A block is in use from the request that granted it until it is given back, and for as long the
reservation that it was carved from is kept.  Numbers are never given out twice, so giving back one block
does not concern the others.

**Main statements.**
* `Arena.Tidy`: the numbers and reservations of the blocks in use; kept by whatever an arena does.
* `Arena.Keeps.free`: giving back a block does not concern those that were in use before it was granted.
* `Arena.Tidy.allocate`: a request grants a block with a new number, and no other block is lost.
* `Arena.mem_blocks_free`: what is left after a block was given back.
-/

namespace CallProfiler.Memory.Arena

/-- The numbers of the blocks in use were given out, and their reservations are kept. -/
structure Tidy (m : Arena) : Prop where
  numbered : ∀ e ∈ m.blocks, e.1 < m.next
  reserved : ∀ e ∈ m.blocks, ∃ r, (e.2.reservation, r) ∈ m.reservations

/-- No block in use is lost. -/
structure Keeps (m m' : Arena) : Prop where
  tidy : m'.Tidy
  later : m.next ≤ m'.next
  kept : ∀ e ∈ m.blocks, e ∈ m'.blocks

/-- What a request for a block does to the blocks in use: none is lost, and a block granted has a new
number. -/
structure Grants (m : Arena) (outcome : Except Fault (Nat × Block) × Arena) : Prop
    extends m.Keeps outcome.2 where
  granted : ∀ key block, outcome.1 = .ok (key, block) → m.next ≤ key ∧ (key, block) ∈ outcome.2.blocks

variable {m m' m'' : Arena}

/-! ## Giving back -/

theorem mem_blocks_free
    {key : Nat} {e : Nat × Block} :
    e ∈ (m.free key).blocks ↔ e ∈ m.blocks ∧ e.1 ≠ key := by
  simp [free, sweep, remove]

/-- A block in use holds its reservation. -/
theorem isHeld_of_mem
    {e : Nat × Block}
    (he : e ∈ m.blocks) :
    m.isHeld e.2.reservation = true := by
  have hheld : m.blocks.any (·.2.reservation = e.2.reservation) = true :=
    List.any_eq_true.2 ⟨e, he, decide_eq_true rfl⟩
  simp only [isHeld, hheld, Bool.true_or]

namespace Tidy

/-- Only the blocks, the reservations and the next number matter. -/
theorem congr
    (h : m.Tidy)
    (hblocks : m'.blocks = m.blocks)
    (hreservations : m'.reservations = m.reservations)
    (hnext : m'.next = m.next) :
    m'.Tidy where
  numbered := by
    rw [hblocks, hnext]
    exact h.numbered
  reserved := by
    rw [hblocks, hreservations]
    exact h.reserved

/-- A reservation with a block in use is not swept away. -/
theorem sweep
    (h : m.Tidy) :
    m.sweep.Tidy where
  numbered := h.numbered
  reserved := by
    intro e he
    obtain ⟨r, hr⟩ := h.reserved e he
    exact ⟨r, List.mem_filter.2 ⟨hr, isHeld_of_mem he⟩⟩

theorem free
    (h : m.Tidy)
    (key : Nat) :
    (m.free key).Tidy := by
  have hless : Tidy { m with blocks := remove key m.blocks } :=
    ⟨fun e he => h.numbered e (List.mem_filter.1 he).1,
      fun e he => h.reserved e (List.mem_filter.1 he).1⟩
  exact hless.sweep

theorem dropAllocator
    (h : m.Tidy)
    (id : Nat) :
    (m.dropAllocator id).Tidy := by
  have hless : Tidy { m with allocators := remove id m.allocators } := h.congr rfl rfl rfl
  exact hless.sweep

theorem createAllocator
    (h : m.Tidy)
    (reference : Range) (order blockSize : Nat) :
    (m.createAllocator reference order blockSize).2.Tidy where
  numbered := fun e he => Nat.lt_succ_of_lt (h.numbered e he)
  reserved := h.reserved

/-! ## Requests -/

/-- A block in a reservation that is there. -/
theorem addBlock
    (h : m.Tidy)
    {b : Block}
    (hreserved : ∃ r, (b.reservation, r) ∈ m.reservations) :
    (m.addBlock b).2.2.Tidy where
  numbered := by
    intro e he
    obtain hold | hnew := List.mem_append.1 he
    · exact Nat.lt_succ_of_lt (h.numbered e hold)
    · rw [List.mem_singleton.1 hnew]
      exact Nat.lt_succ_self m.next
  reserved := by
    intro e he
    obtain hold | hnew := List.mem_append.1 he
    · exact h.reserved e hold
    · rw [List.mem_singleton.1 hnew]
      exact hreserved

/-- Nothing happens to the blocks. -/
theorem keeps
    (h : m.Tidy)
    (hblocks : m'.blocks = m.blocks)
    (hreservations : m'.reservations = m.reservations)
    (hnext : m'.next = m.next) :
    m.Keeps m' where
  tidy := h.congr hblocks hreservations hnext
  later := Nat.le_of_eq hnext.symm
  kept := fun _ he => hblocks ▸ he

theorem grants_refused
    (h : m.Tidy)
    (fault : Fault) (space : Space) :
    m.Grants (.error fault, { m with space }) where
  toKeeps := h.keeps rfl rfl rfl
  granted := fun _ _ hr => by cases hr

end Tidy

namespace Keeps

theorem trans
    (h : m.Keeps m')
    (h' : m'.Keeps m'') :
    m.Keeps m'' where
  tidy := h'.tidy
  later := Nat.le_trans h.later h'.later
  kept := fun e he => h'.kept e (h.kept e he)

/-- A block with a new number is given back. -/
theorem free
    {key : Nat}
    (h : m.Keeps m')
    (hm : m.Tidy)
    (hkey : m.next ≤ key) :
    m.Keeps (m'.free key) where
  tidy := h.tidy.free key
  later := h.later
  kept := by
    intro e he
    refine mem_blocks_free.2 ⟨h.kept e he, ?_⟩
    have hlt := hm.numbered e he
    omega

end Keeps

/-- **A request** grants a block with a new number, and no block in use is lost. -/
theorem Tidy.allocate
    (h : m.Tidy)
    (id size : Nat) :
    m.Grants (m.allocate id size) := by
  have houtcome := outcome_allocate m id size
  generalize m.allocate id size = outcome at houtcome ⊢
  cases houtcome with
  | unknown hallocator =>
      exact h.grants_refused _ m.space
  | tooLarge hallocator hlarge =>
      exact h.grants_refused _ m.space
  | @carved a number r hallocator hfits hroom =>
      have hcarved : Tidy { m with
          reservations := put number { r with used := r.used + blockLength size } m.reservations } :=
        ⟨h.numbered, fun e he => exists_mem_put (.inr (h.reserved e he))⟩
      refine ⟨⟨hcarved.addBlock (exists_mem_put (.inl rfl)), Nat.le_succ _, ?_⟩, ?_⟩
      · exact fun e he => List.mem_append_left _ he
      · intro key block hr
        cases hr
        exact ⟨Nat.le_refl _, List.mem_append_right _ List.mem_cons_self⟩
  | outOfReach requests hallocator hfits hfull =>
      exact h.grants_refused _ _
  | @reserved a location range space hallocator hfits hfull hlocation hgranted =>
      have hreserved : Tidy { m with
          space
          next := m.next + 1
          reservations := m.reservations ++ [(m.next, { range, used := blockLength size })]
          allocators := put id { a with current := some m.next } m.allocators } := by
        refine ⟨fun e he => Nat.lt_succ_of_lt (h.numbered e he), fun e he => ?_⟩
        obtain ⟨r, hr⟩ := h.reserved e he
        exact ⟨r, List.mem_append_left _ hr⟩
      refine ⟨⟨(hreserved.addBlock ⟨_, List.mem_append_right _ List.mem_cons_self⟩).sweep, ?_, ?_⟩, ?_⟩
      · exact Nat.le_trans (Nat.le_succ _) (Nat.le_succ _)
      · exact fun e he => List.mem_append_left _ he
      · intro key block hr
        cases hr
        exact ⟨Nat.le_succ _, List.mem_append_right _ List.mem_cons_self⟩

end CallProfiler.Memory.Arena
