import CallProfiler.Profile.Ticks

/-!
# Statistics of calls

Counters of the completed calls of one function, how one more call and how other counters are added.
Times are ticks; corrected for overhead they may be negative.  Calls are counted in 64 bits and times are
held in 64 bits with a sign, so sums that leave these bounds wrap around.
-/

namespace CallProfiler.Profile

/-- Counters of the completed calls of a function. -/
structure Statistics where
  timesCalled : Nat
  /-- The deepest recursion seen, zero if the function was never re-entered. -/
  maxReentrance : Nat
  inclusiveTime : Int
  exclusiveTime : Int
  maxCallTime : Int
  deriving DecidableEq

namespace Statistics

/-- No call has been seen. -/
def zero : Statistics := ⟨0, 0, 0, 0, 0⟩

/-- Accounts a completed call at a recursion level.  Only outermost calls add to the inclusive time,
so that a recursive function does not count its nested time twice. -/
def addCall (s : Statistics) (level : Nat) (inclusive exclusive : Int) : Statistics where
  timesCalled := (s.timesCalled + 1) % 2 ^ 64
  maxReentrance := max s.maxReentrance level
  inclusiveTime := if level = 0 then wrap (s.inclusiveTime + inclusive) else s.inclusiveTime
  exclusiveTime := wrap (s.exclusiveTime + exclusive)
  maxCallTime := max s.maxCallTime inclusive

/-- Counters of the calls of both. -/
def merge (s t : Statistics) : Statistics where
  timesCalled := (s.timesCalled + t.timesCalled) % 2 ^ 64
  maxReentrance := max s.maxReentrance t.maxReentrance
  inclusiveTime := wrap (s.inclusiveTime + t.inclusiveTime)
  exclusiveTime := wrap (s.exclusiveTime + t.exclusiveTime)
  maxCallTime := max s.maxCallTime t.maxCallTime

theorem merge_comm (s t : Statistics) : s.merge t = t.merge s := by
  simp only [merge, Statistics.mk.injEq, Int.add_comm, Nat.add_comm, true_and]
  omega

theorem merge_assoc (s t u : Statistics) : (s.merge t).merge u = s.merge (t.merge u) := by
  simp only [merge, Statistics.mk.injEq, wrap_wrap_add, wrap_add_wrap, Int.add_assoc, true_and]
  omega

/-- The sums are within the bounds in which they are held, and no longest call took less than no
time. -/
structure Sound (s : Statistics) : Prop where
  timesCalled : s.timesCalled < 2 ^ 64
  inclusiveTime : Fits s.inclusiveTime
  exclusiveTime : Fits s.exclusiveTime
  maxCallTime : 0 ≤ s.maxCallTime

instance (s : Statistics) : Decidable s.Sound :=
  decidable_of_iff
    (s.timesCalled < 2 ^ 64 ∧ Fits s.inclusiveTime ∧ Fits s.exclusiveTime ∧ 0 ≤ s.maxCallTime)
    ⟨fun ⟨hcalls, hinclusive, hexclusive, hlongest⟩ => ⟨hcalls, hinclusive, hexclusive, hlongest⟩,
      fun h => ⟨h.timesCalled, h.inclusiveTime, h.exclusiveTime, h.maxCallTime⟩⟩

theorem sound_zero : zero.Sound :=
  ⟨by decide, by decide, by decide, Int.le_refl 0⟩

theorem merge_zero {s : Statistics} (h : s.Sound) : s.merge zero = s := by
  have hcalls := Nat.mod_eq_of_lt h.timesCalled
  have hinclusive := wrap_of_fits h.inclusiveTime
  have hexclusive := wrap_of_fits h.exclusiveTime
  have hlongest := Int.max_eq_left h.maxCallTime
  cases s
  simp_all [merge, zero]

/-- Sums are within the bounds after every addition. -/
theorem sound_merge {s : Statistics} (h : 0 ≤ s.maxCallTime) (t : Statistics) : (s.merge t).Sound where
  timesCalled := Nat.mod_lt _ (by decide)
  inclusiveTime := fits_wrap _
  exclusiveTime := fits_wrap _
  maxCallTime := Int.le_trans h (Int.le_max_left _ _)

theorem Sound.addCall {s : Statistics} (h : s.Sound) (level : Nat) (inclusive exclusive : Int) :
    (s.addCall level inclusive exclusive).Sound where
  timesCalled := Nat.mod_lt _ (by decide)
  inclusiveTime := by
    simp only [Statistics.addCall]
    split
    · exact fits_wrap _
    · exact h.inclusiveTime
  exclusiveTime := fits_wrap _
  maxCallTime := Int.le_trans h.maxCallTime (Int.le_max_left _ _)

/-- A call accounted after a merge was accounted in the second part. -/
theorem merge_addCall (s t : Statistics) (level : Nat) (inclusive exclusive : Int) :
    s.merge (t.addCall level inclusive exclusive) = (s.merge t).addCall level inclusive exclusive := by
  simp only [merge, addCall, Statistics.mk.injEq, wrap_wrap_add, wrap_add_wrap,
    Int.add_assoc, true_and]
  refine ⟨by omega, by omega, ?_, by omega⟩
  split
  · rw [wrap_add_wrap]
  · rfl

end Statistics

end CallProfiler.Profile
