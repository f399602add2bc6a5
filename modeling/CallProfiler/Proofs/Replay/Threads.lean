import CallProfiler.Profile.Trace
import CallProfiler.Proofs.Replay.Batches

/-!
# Threads are analysed apart

A trace holds the batches of all threads in the order in which they were drained.  The analysis keeps
its threads in ascending order and finds each of them again, so that the batches of one thread are
replayed as if there were no others.

**Main statements.**
* `lookup_updateThread`: changing one thread leaves all others as they are.
* `profile_replay`: the profile of a thread is the replay of its own events.
-/

namespace CallProfiler.Profile

namespace ThreadProfile

/-- A profile after one more batch of events. -/
def replay (p : ThreadProfile) (events : List Event) : ThreadProfile :=
  ⟨(p.stack.update p.tree events).1, (p.stack.update p.tree events).2⟩

theorem foldl_replay
    (s : CallStack) (t : CallTree) (batches : List (List Event)) :
    batches.foldl replay ⟨s, t⟩ = ⟨(s.updates t batches).1, (s.updates t batches).2⟩ := by
  induction batches generalizing s t with
  | nil =>
      rfl
  | cons events rest ih =>
      exact ih _ _

end ThreadProfile

namespace Analysis

variable {l : List (UInt64 × ThreadProfile)} {fresh : ThreadProfile} {thread id : UInt64}
  {f : ThreadProfile → ThreadProfile}

/-- The threads stand in ascending order, each once. -/
def Ascending (l : List (UInt64 × ThreadProfile)) : Prop := l.Pairwise fun p q => p.1 < q.1

theorem mem_updateThread
    {q : UInt64 × ThreadProfile}
    (h : q ∈ updateThread fresh thread f l) :
    q.1 = thread ∨ q ∈ l := by
  induction l with
  | nil =>
      left
      rw [List.mem_singleton.1 h]
  | cons p rest ih =>
      unfold updateThread at h
      split at h
      · rcases List.mem_cons.1 h with rfl | hold
        · exact .inl rfl
        · exact .inr hold
      · split at h
        · next hsame =>
            rcases List.mem_cons.1 h with rfl | hold
            · exact .inl hsame
            · exact .inr (List.mem_cons_of_mem _ hold)
        · rcases List.mem_cons.1 h with rfl | hrest
          · exact .inr List.mem_cons_self
          · rcases ih hrest with hnew | hold
            · exact .inl hnew
            · exact .inr (List.mem_cons_of_mem _ hold)

theorem Ascending.updateThread
    (h : Ascending l)
    (fresh : ThreadProfile) (thread : UInt64) (f : ThreadProfile → ThreadProfile) :
    Ascending (updateThread fresh thread f l) := by
  induction h with
  | nil =>
      exact List.pairwise_singleton _ _
  | @cons p rest hp hrest ih =>
      unfold Analysis.updateThread
      split
      · next hlt =>
          refine List.Pairwise.cons ?_ (List.Pairwise.cons hp hrest)
          intro q hq
          rcases List.mem_cons.1 hq with rfl | hq
          · exact hlt
          · exact UInt64.lt_trans hlt (hp q hq)
      · next hge =>
          split
          · exact List.Pairwise.cons hp hrest
          · next hne =>
              refine List.Pairwise.cons ?_ ih
              intro q hq
              rcases mem_updateThread hq with hnew | hold
              · rw [hnew]
                exact UInt64.lt_of_le_of_ne (UInt64.not_lt.1 hge) hne
              · exact hp q hold

theorem lookup_cons_of_ne
    {key : UInt64}
    (h : id ≠ key)
    (profile : ThreadProfile) (rest : List (UInt64 × ThreadProfile)) :
    ((key, profile) :: rest).lookup id = rest.lookup id := by
  rw [List.lookup_cons, beq_eq_false_iff_ne.2 h]

/-- A thread below all others is not among them. -/
theorem lookup_eq_none
    (h : ∀ p ∈ l, thread < p.1) :
    l.lookup thread = none := by
  rw [List.lookup_eq_none_iff]
  intro p hp
  simpa using UInt64.ne_of_lt (h p hp)

/-- **Changing one thread** leaves all others as they are. -/
theorem lookup_updateThread
    (h : Ascending l) :
    (updateThread fresh thread f l).lookup id =
      if id = thread then some (f ((l.lookup thread).getD fresh)) else l.lookup id := by
  induction h with
  | nil =>
      by_cases hid : id = thread
      · simp [updateThread, hid]
      · simp [updateThread, hid, lookup_cons_of_ne hid]
  | @cons p rest hp hrest ih =>
      obtain ⟨key, profile⟩ := p
      unfold updateThread
      split
      · next hlt =>
          have hnew : ((key, profile) :: rest).lookup thread = none := by
            apply lookup_eq_none
            intro q hq
            rcases List.mem_cons.1 hq with rfl | hq
            · exact hlt
            · exact UInt64.lt_trans hlt (hp q hq)
          rw [hnew]
          by_cases hid : id = thread
          · simp [hid]
          · rw [lookup_cons_of_ne hid, if_neg hid]
      · split
        · next hsame =>
            subst hsame
            by_cases hid : id = key
            · simp [hid]
            · rw [lookup_cons_of_ne hid, lookup_cons_of_ne hid, if_neg hid]
        · next hne =>
            rw [lookup_cons_of_ne (Ne.symm hne)]
            by_cases hkey : id = key
            · simp [hkey, hne]
            · rw [lookup_cons_of_ne hkey, lookup_cons_of_ne hkey]
              exact ih

/-! ## Accepting batches -/

variable {a : Analysis}

/-- What is known of a thread; in a thread that was not seen nothing has happened. -/
def profile (a : Analysis) (thread : UInt64) : ThreadProfile :=
  (a.threads.lookup thread).getD ⟨.empty a.overhead, .empty⟩

theorem profile_accept
    (h : Ascending a.threads)
    (thread : UInt64) (events : List Event) (id : UInt64) :
    (a.accept thread events).profile id =
      if id = thread then (a.profile thread).replay events else a.profile id := by
  unfold profile accept
  rw [lookup_updateThread h]
  by_cases hid : id = thread
  · rw [if_pos hid, if_pos hid]
    rfl
  · rw [if_neg hid, if_neg hid]

end Analysis

namespace Trace

/-- The batches of a thread, in order. -/
def batchesOf (t : Trace) (thread : UInt64) : List (List Event) :=
  (t.chunks.filter (·.thread = thread)).map (·.events)

/-- A trace is replayed thread by thread. -/
theorem profile_replay
    (t : Trace)
    {a : Analysis}
    (h : Analysis.Ascending a.threads)
    (thread : UInt64) :
    (t.replay a).profile thread = (t.batchesOf thread).foldl ThreadProfile.replay (a.profile thread) := by
  obtain ⟨chunks⟩ := t
  induction chunks generalizing a with
  | nil =>
      rfl
  | cons c rest ih =>
      have hrest := ih (a := a.accept c.thread c.events) (h.updateThread _ _ _)
      rw [Analysis.profile_accept h] at hrest
      refine hrest.trans ?_
      by_cases hthread : thread = c.thread
      · simp [batchesOf, hthread]
      · simp [batchesOf, hthread, Ne.symm hthread]

/-- **The profile of a thread** is the replay of its own events, however they are cut into batches and
whatever batches of other threads stand between them. -/
theorem profile_replay_empty
    (t : Trace) (o : Overhead) (thread : UInt64) :
    (t.replay (.empty o)).profile thread =
      ThreadProfile.replay ⟨.empty o, .empty⟩ (t.batchesOf thread).flatten := by
  have hempty : Analysis.Ascending (Analysis.empty o).threads := List.Pairwise.nil
  have hfresh : (Analysis.empty o).profile thread = ⟨.empty o, .empty⟩ := by
    rfl
  rw [profile_replay t hempty, hfresh, ThreadProfile.foldl_replay]
  exact congrArg (fun r : CallStack × CallTree => (⟨r.1, r.2⟩ : ThreadProfile))
    (CallStack.updates_empty o (t.batchesOf thread))

end Trace

end CallProfiler.Profile
