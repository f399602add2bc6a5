import CallProfiler.Proofs.Recording.Conservation
import CallProfiler.Proofs.Recording.Projection
import CallProfiler.Proofs.Recording.Uninterrupted

/-!
# A thread gets on when drains follow

With a limit a thread waits in the middle of a call until its buffer is drained.  A drain that nothing
interrupts leaves all buffers empty, so that the thread can append one more event; and a call has only
so many.  Whatever calls a thread is to make, they can be made, and all their events handed over.

**Main statements.**
* `Ready.drain`: a drain makes room for a thread and leaves to it what it keeps for itself.
* `exists_turns`: any calls can be made one after the other and drained.
-/

namespace CallProfiler.Recording

open Profile (Event)

namespace Collector

open Interleaving (noting)

variable {c c' : Collector} {t : Nat}

/-- Visiting threads empties their buffers and leaves nothing swapped out. -/
theorem drainThreads_noting
    (sink : Nat) (waiting : List Nat)
    {deliveries deliveries' : List Delivery}
    (hempty : ∀ u, c.swappedOut u = [])
    (h : drainThreads (noting sink) waiting c deliveries = (true, c', deliveries')) :
    c'.recorders = c.recorders ∧
      c'.threads = c.threads ∧
      ∀ u, u ∈ waiting ∨ c.buffered u = [] → c'.buffered u = [] := by
  induction waiting generalizing c deliveries with
  | nil =>
      cases h
      exact ⟨rfl, rfl, fun u hu => hu.resolve_left List.not_mem_nil⟩
  | cons t rest ih =>
      have hvisited : ∀ u, ((c.swap t).clear t).swappedOut u = [] := by
        intro u
        rw [swappedOut_clear, swappedOut_swap]
        by_cases hu : u = t
        · rw [if_pos hu]
        · rw [if_neg hu, if_neg hu, hempty]
      have hbuffered : ∀ u, u = t ∨ c.buffered u = [] → ((c.swap t).clear t).buffered u = [] := by
        intro u hu
        rw [buffered_clear, buffered_swap]
        by_cases hut : u = t
        · rw [if_pos hut, hempty]
        · rw [if_neg hut]
          exact hu.resolve_left hut
      have hrest : ∃ deliveries₁,
          drainThreads (noting sink) rest ((c.swap t).clear t) deliveries₁ =
            (true, c', deliveries') := by
        unfold drainThreads at h
        by_cases hnothing : (c.swap t).swappedOut t = []
        · exact ⟨_, by simpa [hnothing] using h⟩
        · exact ⟨_, by simpa [hnothing, noting] using h⟩
      obtain ⟨deliveries₁, hrest⟩ := hrest
      obtain ⟨hrecorders, hthreads, hall⟩ := ih hvisited hrest
      refine ⟨hrecorders, ?_, ?_⟩
      · rw [hthreads, threads_clear, threads_swap]
      · intro u hu
        refine hall u ?_
        rcases hu with hmem | hold
        · rcases List.mem_cons.1 hmem with hut | hmem
          · exact .inr (hbuffered u (.inl hut))
          · exact .inl hmem
        · exact .inr (hbuffered u (.inr hold))

/-- Forgetting threads leaves the buffers as they are, and the threads that have not ended known. -/
theorem foldl_forget
    (hdistinct : c.threads.Nodup)
    (visited : List Nat) :
    (visited.foldl forget c).recorders = c.recorders ∧
      (∀ u, (visited.foldl forget c).buffered u = c.buffered u) ∧
      ∀ u ∈ c.threads, (c.recorder? u).isSome → u ∈ (visited.foldl forget c).threads := by
  induction visited generalizing c with
  | nil =>
      exact ⟨rfl, fun _ => rfl, fun _ hu _ => hu⟩
  | cons t rest ih =>
      obtain ⟨hrecorders, hbuffered, hknown⟩ :=
        ih ((sublist_threads_forget c t).nodup hdistinct)
      refine ⟨hrecorders, ?_, ?_⟩
      · intro u
        rw [List.foldl_cons, hbuffered, buffered_forget hdistinct]
      · intro u hu hlive
        refine hknown u ?_ hlive
        by_contra hgone
        have hnone := (threads_forget hdistinct hu hgone).2.1
        rw [hnone] at hlive
        cases hlive

/-- **A drain** empties all buffers. -/
theorem drain_noting
    (sink : Nat)
    {deliveries deliveries' : List Delivery}
    (hdistinct : c.threads.Nodup)
    (hempty : ∀ u, c.swappedOut u = [])
    (h : c.drain (noting sink) deliveries = (true, c', deliveries')) :
    c'.recorders = c.recorders ∧
      (∀ u, c'.buffered u = []) ∧
      ∀ u ∈ c.threads, (c.recorder? u).isSome → u ∈ c'.threads := by
  unfold drain at h
  split at h
  · cases h
  · next c₁ deliveries₁ hvisit =>
      cases h
      obtain ⟨hrecorders, hthreads, hbuffered⟩ := drainThreads_noting sink c.threads hempty hvisit
      have hdistinct₁ : c₁.threads.Nodup := hthreads ▸ hdistinct
      obtain ⟨hrecorders', hbuffered', hknown⟩ := foldl_forget hdistinct₁ c₁.threads
      refine ⟨hrecorders'.trans hrecorders, ?_, ?_⟩
      · intro u
        rw [hbuffered']
        refine hbuffered u ?_
        by_cases hu : u ∈ c.threads
        · exact .inl hu
        · exact .inr (buffered_of_notMem hu)
      · intro u hu hlive
        refine hknown u (hthreads ▸ hu) ?_
        unfold recorder?
        rw [hrecorders]
        exact hlive

/-- A known thread with an empty buffer can append. -/
theorem next?_of_buffered_nil
    {e : Event} {rest : List Event}
    (hknown : t ∈ c.threads)
    (hpending : c.pendingOf t = e :: rest)
    (hbuffered : c.buffered t = []) :
    c.next? t = some e := by
  unfold next?
  unfold pendingOf at hpending
  unfold buffered at hbuffered
  cases hrecorder : c.recorder? t with
  | none =>
      simp [hrecorder] at hpending
  | some r =>
      cases hlog : c.log? t with
      | none =>
          exact absurd hknown (log?_eq_none_iff.1 hlog)
      | some log =>
          have hroom : c.hasRoom log = true := by
            have hactive : log.active = [] := by
              simpa [hlog] using hbuffered
            simp only [hasRoom, hactive, List.length_nil, Bool.or_eq_true, decide_eq_true_eq]
            exact Nat.eq_zero_or_pos c.limit
          have hfirst : r.pending = e :: rest := by
            simpa [hrecorder] using hpending
          simp [hroom, hfirst]

theorem calls_calling
    (c : Collector)
    {turn : Turn}
    (hcaller : turn.caller? = some t) :
    c.Calls (c.calling turn) t := by
  cases turn with
  | track _ e =>
      cases hcaller
      exact calls_post c t [e]
  | enter _ slot returnAddress timestamp callee =>
      cases hcaller
      exact calls_enter c t slot returnAddress timestamp callee
  | exit _ slot timestamp =>
      cases hcaller
      exact calls_exit c t slot timestamp
  | append _ | leave _ | startDrain _ | goOn | tick _ | requestStop _ | seeStop _ =>
      cases hcaller

end Collector

namespace Interleaving

variable {limit : Nat} {s : Interleaving} {t : Nat}

/-- No drain goes on, and a thread that has not ended is known if it has recorded. -/
structure Ready (limit : Nat) (s : Interleaving) (t : Nat) : Prop where
  sound : Sound limit s
  free : s.drain = none
  live : t ∉ s.ended
  known : (s.collector.recorder? t).isSome → t ∈ s.collector.threads

/-- All that a thread recorded is handed over. -/
def Done (s : Interleaving) (t : Nat) : Prop :=
  s.collector.pendingOf t = [] ∧ s.collector.buffered t = []

namespace Ready

theorem start
    (limit : Nat) (sinks : Nat → Nat) (t : Nat) :
    Ready limit (start limit sinks) t :=
  ⟨Sound.start limit sinks, rfl, List.not_mem_nil, fun h => by cases h⟩

/-- **A drain** makes room for a thread and leaves to it what it keeps for itself. -/
theorem drain
    (h : Ready limit s t) :
    ∃ turns, (∀ turn ∈ turns, turn.caller? = none) ∧
      Ready limit (s.run turns) t ∧
      (s.run turns).collector.recorder? t = s.collector.recorder? t ∧
      (s.run turns).collector.buffered t = [] := by
  obtain ⟨n, c, deliveries, hdrain, hrun⟩ := run_drain h.free 0
  have hempty : ∀ u, s.collector.swappedOut u = [] := by
    intro u
    exact h.sound.emptied u (by simp [visited, h.free])
  obtain ⟨hrecorders, hbuffered, hknown⟩ := Collector.drain_noting 0 h.sound.distinct hempty hdrain
  have hrecorder : c.recorder? t = s.collector.recorder? t := by
    unfold Collector.recorder?
    rw [hrecorders]
  have hsound := h.sound.run (.startDrain (.direct 0) :: List.replicate n .goOn)
  rw [hrun] at hsound
  refine ⟨.startDrain (.direct 0) :: List.replicate n .goOn, ?_, ?_⟩
  · intro turn hmem
    rcases List.mem_cons.1 hmem with rfl | hmem
    · rfl
    · rw [List.eq_of_mem_replicate hmem]
      rfl
  · rw [hrun]
    refine ⟨⟨hsound, h.free, h.live, ?_⟩, hrecorder, hbuffered t⟩
    intro hlive
    have hlive' : (s.collector.recorder? t).isSome := hrecorder ▸ hlive
    exact hknown t (h.known hlive') hlive'

/-- With an empty buffer a thread appends. -/
theorem append
    (h : Ready limit s t)
    {e : Event} {rest : List Event}
    (hpending : s.collector.pendingOf t = e :: rest)
    (hbuffered : s.collector.buffered t = []) :
    Ready limit (s.step (.append t)) t ∧ (s.step (.append t)).collector.pendingOf t = rest := by
  have hlive : (s.collector.recorder? t).isSome := by
    unfold Collector.pendingOf at hpending
    cases hrecorder : s.collector.recorder? t with
    | none =>
        simp [hrecorder] at hpending
    | some r =>
        rfl
  have hnext := Collector.next?_of_buffered_nil (h.known hlive) hpending hbuffered
  have hsound := h.sound.append hnext
  simp only [step, hnext]
  refine ⟨⟨hsound, h.free, h.live, ?_⟩, ?_⟩
  · intro _
    show t ∈ (s.collector.advance t).threads
    rw [Collector.threads_advance hnext]
    exact h.known hlive
  · rw [Collector.pendingOf_eq_cons hnext] at hpending
    exact (List.cons.inj hpending).2

/-- Drains and appends in turn hand over all that a thread recorded. -/
theorem settle
    (h : Ready limit s t) :
    ∃ turns, (∀ turn ∈ turns, turn.caller? = none) ∧
      Ready limit (s.run turns) t ∧ (s.run turns).Done t := by
  generalize hpending : s.collector.pendingOf t = pending
  induction pending generalizing s with
  | nil =>
      obtain ⟨turns, hturns, hready, hrecorder, hbuffered⟩ := h.drain
      refine ⟨turns, hturns, hready, ?_, hbuffered⟩
      unfold Collector.pendingOf at hpending ⊢
      rw [hrecorder]
      exact hpending
  | cons e rest ih =>
      obtain ⟨turns, hturns, hready, hrecorder, hbuffered⟩ := h.drain
      have hpending' : (s.run turns).collector.pendingOf t = e :: rest := by
        unfold Collector.pendingOf at hpending ⊢
        rw [hrecorder]
        exact hpending
      obtain ⟨hready', hrest⟩ := hready.append hpending' hbuffered
      obtain ⟨later, hlater, hdone⟩ := ih hready' hrest
      refine ⟨turns ++ .append t :: later, ?_, ?_⟩
      · intro turn hmem
        rcases List.mem_append.1 hmem with hmem | hmem
        · exact hturns turn hmem
        · rcases List.mem_cons.1 hmem with rfl | hmem
          · rfl
          · exact hlater turn hmem
      · rw [run_append]
        exact hdone

/-- A thread that is not in the middle of a call makes one. -/
theorem call
    (h : Ready limit s t)
    (hpending : s.collector.pendingOf t = [])
    {turn : Turn}
    (hcaller : turn.caller? = some t) :
    s.callsIn t turn = [turn] ∧ Ready limit (s.step turn) t := by
  have hcall : s.mayCall t = true := by
    unfold mayCall isLocked
    unfold Collector.pendingOf at hpending
    cases hrecorder : s.collector.recorder? t with
    | none =>
        simp [h.live, h.free]
    | some r =>
        have hnothing : r.pending = [] := by
          simpa [hrecorder] using hpending
        simp [h.live, hnothing]
  have hcalls := s.collector.calls_calling hcaller
  have hstep : s.step turn = { s with collector := s.collector.calling turn } := by
    rw [step_of_caller hcaller, if_pos hcall]
  refine ⟨if_pos ⟨hcaller, hcall⟩, ?_⟩
  rw [hstep]
  refine ⟨h.sound.call hcall hcalls, h.free, h.live, ?_⟩
  intro _
  show t ∈ (s.collector.calling turn).threads
  rw [hcalls.threads]
  split
  · next hlive => exact h.known hlive
  · exact List.mem_append_right _ (List.mem_singleton_self t)

/-- Calls are made one after the other. -/
theorem calls
    (h : Ready limit s t)
    (hdone : s.Done t)
    {calls : List Turn}
    (hcallers : ∀ turn ∈ calls, turn.caller? = some t) :
    ∃ turns, s.callsOf t turns = calls ∧ Ready limit (s.run turns) t ∧ (s.run turns).Done t := by
  induction calls generalizing s with
  | nil =>
      exact ⟨[], rfl, h, hdone⟩
  | cons turn rest ih =>
      obtain ⟨hmade, hready⟩ := h.call hdone.1 (hcallers turn List.mem_cons_self)
      obtain ⟨settling, hsettling, hready', hdone'⟩ := hready.settle
      obtain ⟨later, hlater, hready'', hdone''⟩ :=
        ih hready' hdone' fun turn' hmem => hcallers turn' (List.mem_cons_of_mem _ hmem)
      refine ⟨turn :: (settling ++ later), ?_, ?_⟩
      · rw [callsOf, hmade, callsOf_append, callsOf_eq_nil hsettling, hlater]
        rfl
      · have hrun : s.run (turn :: (settling ++ later)) = ((s.step turn).run settling).run later :=
          run_append (s.step turn) settling later
        rw [hrun]
        exact ⟨hready'', hdone''⟩

end Ready

/-- **Any calls** can be made one after the other and drained, whatever the limit. -/
theorem exists_turns
    (limit : Nat) (sinks : Nat → Nat) (t : Nat)
    {calls : List Turn}
    (hcallers : ∀ turn ∈ calls, turn.caller? = some t) :
    ∃ turns, (start limit sinks).callsOf t turns = calls ∧
      ((start limit sinks).run turns).undrained t ++
        ((start limit sinks).run turns).collector.pendingOf t = [] := by
  obtain ⟨turns, hcalls, hready, hpending, hbuffered⟩ :=
    (Ready.start limit sinks t).calls ⟨rfl, rfl⟩ hcallers
  refine ⟨turns, hcalls, ?_⟩
  simp [undrained, inHand, hready.free, hpending, hbuffered]

end Interleaving

end CallProfiler.Recording
