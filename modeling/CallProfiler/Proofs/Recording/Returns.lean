import CallProfiler.Recording.ReturnStack
import Mathlib.Data.List.Basic

/-!
# What an exit takes off a return stack

An exit closes the innermost open call, and with it the calls below as long as their slots do not lie
above the slot of the exit.  The return address is that of the last call closed.  Below all calls one
may think of an entry that is no call, the sentinel; its slot lies above every other.

**Main statements.**
* `exit_cons`: what an exit closes, records and gives.
* `exit_append`: what lies on top of a call at lower slots does not matter for its exit.
* `slot_lt_topSlot_exit`: after an exit only calls above its slot are open.
* `pop_grounded`: popping entries down to the sentinel is the exit, and leaves the sentinel in place.
-/

namespace CallProfiler.Recording.ReturnStack

open Profile (Event)

variable {slot : UInt64}

/-- The calls at the top whose slots do not lie above `slot`. -/
def run (slot : UInt64) (s : ReturnStack) : ReturnStack := s.takeWhile (·.slot ≤ slot)

/-- What is left when these are taken off. -/
def above (slot : UInt64) (s : ReturnStack) : ReturnStack := s.dropWhile (·.slot ≤ slot)

theorem run_append_above
    (slot : UInt64) (s : ReturnStack) :
    s.run slot ++ s.above slot = s :=
  List.takeWhile_append_dropWhile

theorem run_cons_of_lt
    {c : OpenCall}
    (h : slot < c.slot)
    (rest : ReturnStack) :
    run slot (c :: rest) = [] ∧ above slot (c :: rest) = c :: rest := by
  have hnot : ¬ c.slot ≤ slot := UInt64.not_le.2 h
  simp [run, above, hnot]

theorem run_cons_of_le
    {c : OpenCall}
    (h : c.slot ≤ slot)
    (rest : ReturnStack) :
    run slot (c :: rest) = c :: run slot rest ∧ above slot (c :: rest) = above slot rest := by
  simp [run, above, h]

theorem exit_singleton
    (slot timestamp : UInt64) (c : OpenCall) :
    exit slot timestamp [c] = ([], [.exit timestamp], c.returnAddress) := by
  rw [exit, if_pos (.inl rfl)]

theorem exit_cons_of_lt
    {d : OpenCall}
    (h : slot < d.slot)
    (timestamp : UInt64) (c : OpenCall) (rest : ReturnStack) :
    exit slot timestamp (c :: d :: rest) = (d :: rest, [.exit timestamp], c.returnAddress) := by
  rw [exit, if_pos (.inr h)]

theorem exit_cons_of_le
    {d : OpenCall}
    (h : d.slot ≤ slot)
    (timestamp : UInt64) (c : OpenCall) (rest : ReturnStack) :
    exit slot timestamp (c :: d :: rest) =
      ((exit slot timestamp (d :: rest)).1, .exit timestamp :: (exit slot timestamp (d :: rest)).2.1,
        (exit slot timestamp (d :: rest)).2.2) := by
  have hgo : ¬ (d :: rest = [] ∨ slot < topSlot (d :: rest)) := by
    rintro (hnil | hlt)
    · cases hnil
    · exact UInt64.not_lt.2 h hlt
  rw [exit, if_neg hgo]

/-- **An exit** closes the innermost call and the run below it; the outermost of these has the return
address. -/
theorem exit_cons
    (slot timestamp : UInt64) (c : OpenCall) (rest : ReturnStack) :
    exit slot timestamp (c :: rest) =
      (rest.above slot, List.replicate ((rest.run slot).length + 1) (.exit timestamp),
        ((rest.run slot).getLastD c).returnAddress) := by
  induction rest generalizing c with
  | nil =>
      exact exit_singleton slot timestamp c
  | cons d rest ih =>
      by_cases hlt : slot < d.slot
      · obtain ⟨hrun, habove⟩ := run_cons_of_lt hlt rest
        rw [exit_cons_of_lt hlt, hrun, habove]
        rfl
      · have hle := UInt64.not_lt.1 hlt
        obtain ⟨hrun, habove⟩ := run_cons_of_le hle rest
        rw [exit_cons_of_le hle, ih, hrun, habove, List.getLastD_cons]
        rfl

/-- Calls with lower slots on top of a call are closed with it and do not change what is given. -/
theorem exit_append
    (timestamp : UInt64) {inside : ReturnStack} {c : OpenCall}
    (hinside : ∀ d ∈ inside, d.slot < c.slot)
    (beneath : ReturnStack) :
    (exit c.slot timestamp (inside ++ c :: beneath)).1 = beneath.above c.slot ∧
      (exit c.slot timestamp (inside ++ c :: beneath)).2.2 =
        ((beneath.run c.slot).getLastD c).returnAddress := by
  cases inside with
  | nil =>
      rw [List.nil_append, exit_cons]
      exact ⟨rfl, rfl⟩
  | cons d inside =>
      have hcall := run_cons_of_le (UInt64.le_refl c.slot) beneath
      have hlower : ∀ e ∈ inside, decide (e.slot ≤ c.slot) = true :=
        fun e he => decide_eq_true (UInt64.le_of_lt (hinside e (List.mem_cons_of_mem _ he)))
      have hrun : run c.slot (inside ++ c :: beneath) = inside ++ c :: run c.slot beneath := by
        rw [← hcall.1]
        exact List.takeWhile_append_of_pos hlower
      have habove : above c.slot (inside ++ c :: beneath) = above c.slot beneath := by
        rw [← hcall.2]
        exact List.dropWhile_append_of_pos hlower
      rw [List.cons_append, exit_cons, hrun, habove]
      refine ⟨rfl, ?_⟩
      simp only [List.getLastD_eq_getLast?, List.getLast?_append, List.getLast?_cons]
      rfl

/-! ## The sentinel -/

/-- An entry that is no call. -/
def sentinel : OpenCall := ⟨UInt64.ofNat (2 ^ 64 - 1), 0⟩

/-- The open calls with the sentinel below them. -/
def grounded (s : ReturnStack) : List OpenCall := s ++ [sentinel]

/-- Pops entries, as long as there is another one, until the top one lies above the slot.  Each is
recorded as an exit, and the last one has the return address. -/
def pop (slot timestamp : UInt64) : UInt64 → List OpenCall → List OpenCall × List Event × UInt64
  | _, c :: d :: rest =>
    if slot < d.slot then (d :: rest, [.exit timestamp], c.returnAddress)
    else
      let (left, events, returnAddress) := pop slot timestamp c.returnAddress (d :: rest)
      (left, .exit timestamp :: events, returnAddress)
  | returnAddress, entries => (entries, [], returnAddress)

theorem topSlot_eq
    (s : ReturnStack) :
    (s.grounded.head?.map (·.slot)) = some s.topSlot := by
  cases s <;> rfl

/-- **The sentinel stays.**  Popping entries off the open calls with the sentinel below them is the exit,
and the sentinel is below what is left. -/
theorem pop_grounded
    (slot timestamp : UInt64) (s : ReturnStack) :
    pop slot timestamp 0 s.grounded =
      ((exit slot timestamp s).1.grounded, (exit slot timestamp s).2.1,
        (exit slot timestamp s).2.2) := by
  cases s with
  | nil =>
      rfl
  | cons c rest =>
      generalize (0 : UInt64) = before
      induction rest generalizing c before with
      | nil =>
          rw [exit_singleton]
          show pop slot timestamp before [c, sentinel] = _
          rw [pop]
          split <;> rfl
      | cons d rest ih =>
          show pop slot timestamp before (c :: d :: grounded rest) = _
          rw [pop]
          by_cases hlt : slot < d.slot
          · rw [if_pos hlt, exit_cons_of_lt hlt]
            rfl
          · have hrest : pop slot timestamp c.returnAddress (d :: grounded rest) = _ :=
              ih d c.returnAddress
            rw [if_neg hlt, exit_cons_of_le (UInt64.not_lt.1 hlt), hrest]

/-- Every slot but the highest lies below the sentinel. -/
theorem lt_sentinel
    (h : slot ≠ sentinel.slot) :
    slot < sentinel.slot := by
  have hle : slot ≤ sentinel.slot := by
    rw [UInt64.le_iff_toNat_le]
    exact Nat.le_of_lt_succ slot.toNat_lt
  exact UInt64.lt_of_le_of_ne hle h

/-- After an exit only calls above its slot are open. -/
theorem slot_lt_topSlot_exit
    (h : slot ≠ sentinel.slot)
    (timestamp : UInt64) (s : ReturnStack) :
    slot < (exit slot timestamp s).1.topSlot := by
  cases s with
  | nil =>
      exact lt_sentinel h
  | cons c rest =>
      rw [exit_cons]
      show slot < topSlot (above slot rest)
      induction rest with
      | nil =>
          exact lt_sentinel h
      | cons d rest ih =>
          by_cases hlt : slot < d.slot
          · rw [(run_cons_of_lt hlt rest).2]
            exact hlt
          · rw [(run_cons_of_le (UInt64.not_lt.1 hlt) rest).2]
            exact ih

end CallProfiler.Recording.ReturnStack
