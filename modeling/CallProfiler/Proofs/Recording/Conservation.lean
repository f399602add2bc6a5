import CallProfiler.Proofs.Recording.Buffers

/-!
# No event is lost, doubled or reordered

Threads append while a drain swaps their buffers, hands over what was swapped out and clears it.  At
every moment an event that a thread appended is in one of three places: it was handed over, the drain
has it in hand, or it is in the thread's buffer.  The invariant `Sound` says so for each thread, with
the order, and that nothing else is anywhere.

**Main statements.**
* `taken_step`: what a step can be.
* `Sound.step`: every step keeps the invariant; `Sound.stepDrain` is the step of a drain.
* `Sound.forgotten`: a thread that is not known any more ended, and nothing of it is undrained.
-/

namespace CallProfiler.Recording

open Profile (Event)

namespace Interleaving

/-- What a step can be.  Calls of all kinds differ only in what waits to be appended. -/
inductive Taken (s : Interleaving) : Interleaving → Prop
  | nothing : Taken s s
  | call {t : Nat} {c : Collector} :
      s.mayCall t = true →
      s.collector.Calls c t →
      Taken s { s with collector := c }
  | append {t : Nat} {e : Event} :
      s.collector.next? t = some e →
      Taken s
        { s with
          collector := s.collector.advance t
          appended := fun u => if u = t then s.appended u ++ [e] else s.appended u }
  | leave (t : Nat) : Taken s { s with collector := s.collector.leave t, ended := t :: s.ended }
  | startDrain {d : Drainer} :
      s.drain = none →
      s.mayDrain d = true →
      Taken s { s with drain := some (d, .starting) }
  | goOn {d : Drainer} {stage : Stage} :
      s.drain = some (d, stage) →
      Taken s (s.stepDrain d stage)
  | tick {k : Nat} :
      (s.pollers k).place = .waiting →
      Taken s (s.setPoller k { s.pollers k with place := .draining })
  | requestStop (k : Nat) : Taken s (s.setPoller k { s.pollers k with stopRequested := true })
  | seeStop {k : Nat} :
      (s.pollers k).place = .waiting →
      (s.pollers k).stopRequested = true →
      Taken s (s.setPoller k { s.pollers k with place := .drainingLast })

theorem taken_step
    (s : Interleaving) (turn : Turn) :
    Taken s (s.step turn) := by
  cases turn with
  | track t e =>
      simp only [step]
      split
      · next hcall => exact .call hcall (Collector.calls_post s.collector t [e])
      · exact .nothing
  | enter t slot returnAddress timestamp callee =>
      simp only [step]
      split
      · next hcall =>
          exact .call hcall (Collector.calls_enter s.collector t slot returnAddress timestamp callee)
      · exact .nothing
  | exit t slot timestamp =>
      simp only [step]
      split
      · next hcall => exact .call hcall (Collector.calls_exit s.collector t slot timestamp)
      · exact .nothing
  | append t =>
      cases hnext : s.collector.next? t with
      | none =>
          simp only [step, hnext]
          exact .nothing
      | some e =>
          simp only [step, hnext]
          exact .append hnext
  | leave t =>
      simp only [step]
      split
      · exact .leave t
      · exact .nothing
  | startDrain d =>
      simp only [step]
      split
      · next hfree => exact .startDrain hfree.1 hfree.2
      · exact .nothing
  | goOn =>
      cases hdrain : s.drain with
      | none =>
          simp only [step, hdrain]
          exact .nothing
      | some going =>
          simp only [step, hdrain]
          exact .goOn hdrain
  | tick k =>
      simp only [step]
      split
      · next hwaiting => exact .tick hwaiting
      · exact .nothing
  | requestStop k =>
      exact .requestStop k
  | seeStop k =>
      simp only [step]
      split
      · next hseen => exact .seeStop hseen.1 hseen.2
      · exact .nothing

/-- The thread whose swapped-out events are dealt with. -/
def visited (s : Interleaving) : Option Nat :=
  match s.drain with
  | some (_, .handing t _) => some t
  | some (_, .clearing t _) => some t
  | _ => none

/-- A thread is known once, and one that has not ended keeps something for itself. -/
structure Registry (s : Interleaving) : Prop where
  distinct : s.collector.threads.Nodup
  registered : ∀ t ∈ s.collector.threads, t ∉ s.ended → (s.collector.recorder? t).isSome

namespace Registry

variable {s s' : Interleaving} {t : Nat}

theorem start
    (limit : Nat) (sinks : Nat → Nat) :
    Registry (start limit sinks) :=
  ⟨List.nodup_nil, fun _ ht => absurd ht List.not_mem_nil⟩

/-- A thread that is not known and has not ended becomes known by a call. -/
theorem notMem_threads
    (h : Registry s)
    (hcall : s.mayCall t = true)
    (hrecorder : (s.collector.recorder? t).isSome = false) :
    t ∉ s.collector.threads := by
  intro hknown
  have hlive : t ∉ s.ended := by
    unfold mayCall at hcall
    simp only [Bool.and_eq_true, decide_eq_true_eq] at hcall
    exact hcall.1
  rw [h.registered t hknown hlive] at hrecorder
  cases hrecorder

theorem call
    (h : Registry s)
    (hcall : s.mayCall t = true)
    {c : Collector}
    (hc : s.collector.Calls c t) :
    Registry { s with collector := c } where
  distinct := by
    show c.threads.Nodup
    rw [hc.threads]
    cases hrecorder : (s.collector.recorder? t).isSome with
    | true =>
        exact h.distinct
    | false =>
        have hnew := h.notMem_threads hcall hrecorder
        refine List.nodup_append.2 ⟨h.distinct, List.nodup_singleton t, ?_⟩
        rintro u hu v hv rfl
        exact hnew (List.mem_singleton.1 hv ▸ hu)
  registered := by
    intro u hu hlive
    show (c.recorder? u).isSome = true
    rw [hc.recorder]
    by_cases hut : u = t
    · simp [hut]
    · have hknown : u ∈ s.collector.threads := by
        have hu' : u ∈ c.threads := hu
        rw [hc.threads] at hu'
        split at hu'
        · exact hu'
        · simpa [hut] using hu'
      simp [h.registered u hknown hlive]

theorem append
    (h : Registry s)
    {e : Event}
    (hnext : s.collector.next? t = some e)
    (appended : Nat → List Event) :
    Registry { s with collector := s.collector.advance t, appended } where
  distinct := by
    show (s.collector.advance t).threads.Nodup
    rw [Collector.threads_advance hnext]
    exact h.distinct
  registered := by
    intro u hu hlive
    show ((s.collector.advance t).recorder? u).isSome = true
    rw [Collector.isSome_recorder?_advance hnext]
    refine h.registered u ?_ hlive
    rw [← Collector.threads_advance hnext]
    exact hu

theorem leave
    (h : Registry s)
    (t : Nat) :
    Registry { s with collector := s.collector.leave t, ended := t :: s.ended } where
  distinct := h.distinct
  registered := by
    intro u hu hlive
    obtain ⟨hut, hlive⟩ := not_or.1 fun hmem => hlive (List.mem_cons.2 hmem)
    show ((s.collector.leave t).recorder? u).isSome = true
    rw [Collector.recorder?_leave s.collector hut]
    exact h.registered u hu hlive

/-- Drains make no thread known, and leave to every thread what it keeps for itself. -/
theorem of_drained
    (h : Registry s)
    (hthreads : s'.collector.threads.Sublist s.collector.threads)
    (hrecorders : s'.collector.recorders = s.collector.recorders)
    (hended : s'.ended = s.ended) :
    Registry s' where
  distinct := hthreads.nodup h.distinct
  registered := by
    intro u hu hlive
    unfold Collector.recorder?
    rw [hrecorders]
    exact h.registered u (hthreads.subset hu) (hended ▸ hlive)

theorem stepDrain
    (h : Registry s)
    (d : Drainer) (stage : Stage) :
    Registry (s.stepDrain d stage) := by
  match stage with
  | .swapping (u :: _) =>
      exact h.of_drained (Collector.threads_swap s.collector u ▸ List.Sublist.refl _) rfl rfl
  | .clearing u _ =>
      exact h.of_drained (Collector.threads_clear s.collector u ▸ List.Sublist.refl _) rfl rfl
  | .forgetting (u :: _) =>
      exact h.of_drained (Collector.sublist_threads_forget s.collector u) rfl rfl
  | .forgetting [] => cases d <;> exact ⟨h.distinct, h.registered⟩
  | .starting | .swapping [] | .handing _ _ => exact ⟨h.distinct, h.registered⟩

theorem step
    (h : Registry s)
    (hstep : Taken s s') :
    Registry s' := by
  cases hstep with
  | nothing => exact h
  | call hcall hc => exact h.call hcall hc
  | append hnext => exact h.append hnext _
  | leave t => exact h.leave t
  | goOn _ => exact h.stepDrain _ _
  | startDrain _ _ | tick _ | requestStop _ | seeStop _ _ => exact ⟨h.distinct, h.registered⟩

end Registry

/-- Nothing is lost, doubled or reordered; nothing is swapped out but of the thread that is visited;
and with a limit no buffer and no batch exceeds it. -/
structure Sound (limit : Nat) (s : Interleaving) : Prop where
  limited : s.collector.limit = limit
  distinct : s.collector.threads.Nodup
  registered : ∀ t ∈ s.collector.threads, t ∉ s.ended → (s.collector.recorder? t).isSome
  conserved : ∀ t, s.handedOver t ++ s.undrained t = s.appended t
  emptied : ∀ t, s.visited ≠ some t → s.collector.swappedOut t = []
  within : 0 < limit → ∀ t,
    (s.collector.buffered t).length ≤ limit ∧ (s.collector.swappedOut t).length ≤ limit
  batches : ∀ d ∈ s.deliveries, d.events ≠ [] ∧ (0 < limit → d.events.length ≤ limit)

namespace Sound

variable {limit : Nat} {s : Interleaving} {t : Nat}

theorem start
    (limit : Nat) (sinks : Nat → Nat) :
    Sound limit (start limit sinks) where
  limited := rfl
  distinct := List.nodup_nil
  registered := fun _ ht => absurd ht List.not_mem_nil
  conserved := fun _ => rfl
  emptied := fun _ _ => rfl
  within := fun _ _ => ⟨Nat.zero_le _, Nat.zero_le _⟩
  batches := fun _ hd => absurd hd List.not_mem_nil

/-! ## Steps of threads -/

theorem registry
    (h : Sound limit s) :
    Registry s :=
  ⟨h.distinct, h.registered⟩

theorem call
    (h : Sound limit s)
    (hcall : s.mayCall t = true)
    {c : Collector}
    (hc : s.collector.Calls c t) :
    Sound limit { s with collector := c } where
  limited := hc.limit.trans h.limited
  distinct := (h.registry.call hcall hc).distinct
  registered := (h.registry.call hcall hc).registered
  conserved := by
    intro u
    have hu := h.conserved u
    unfold undrained inHand at hu ⊢
    simp only [hc.buffered, hc.swappedOut]
    exact hu
  emptied := by
    intro u hu
    exact (hc.swappedOut u).trans (h.emptied u hu)
  within := by
    intro hpos u
    show (c.buffered u).length ≤ limit ∧ (c.swappedOut u).length ≤ limit
    rw [hc.buffered, hc.swappedOut]
    exact h.within hpos u
  batches := h.batches

theorem append
    (h : Sound limit s)
    {e : Event}
    (hnext : s.collector.next? t = some e) :
    Sound limit
      { s with
        collector := s.collector.advance t
        appended := fun u => if u = t then s.appended u ++ [e] else s.appended u } where
  limited := by
    show (s.collector.advance t).limit = limit
    rw [Collector.advance_eq hnext]
    exact h.limited
  distinct := (h.registry.append hnext s.appended).distinct
  registered := (h.registry.append hnext s.appended).registered
  conserved := by
    intro u
    have hu := h.conserved u
    unfold undrained inHand at hu ⊢
    simp only [Collector.buffered_advance hnext, Collector.swappedOut_advance hnext]
    by_cases hut : u = t
    · rw [if_pos hut, if_pos hut, ← hu]
      simp only [List.append_assoc]
      rfl
    · rw [if_neg hut, if_neg hut]
      exact hu
  emptied := by
    intro u hu
    exact (Collector.swappedOut_advance hnext u).trans (h.emptied u hu)
  within := by
    intro hpos u
    show ((s.collector.advance t).buffered u).length ≤ limit ∧
      ((s.collector.advance t).swappedOut u).length ≤ limit
    rw [Collector.buffered_advance hnext, Collector.swappedOut_advance hnext]
    obtain ⟨hbuffered, hswapped⟩ := h.within hpos u
    refine ⟨?_, hswapped⟩
    by_cases hut : u = t
    · have hroom := Collector.length_buffered_lt hnext (h.limited.symm ▸ hpos)
      rw [h.limited] at hroom
      rw [if_pos hut, hut, List.length_append, List.length_singleton]
      omega
    · rw [if_neg hut]
      exact hbuffered
  batches := h.batches

theorem leave
    (h : Sound limit s)
    (t : Nat) :
    Sound limit { s with collector := s.collector.leave t, ended := t :: s.ended } where
  limited := h.limited
  distinct := h.distinct
  registered := (h.registry.leave t).registered
  conserved := h.conserved
  emptied := h.emptied
  within := h.within
  batches := h.batches

/-! ## Steps of a drain -/

/-- What a step of a drain has to keep. -/
theorem of_drained
    {s' : Interleaving}
    (h : Sound limit s)
    (hlimit : s'.collector.limit = s.collector.limit)
    (hthreads : s'.collector.threads.Sublist s.collector.threads)
    (hrecorders : s'.collector.recorders = s.collector.recorders)
    (hended : s'.ended = s.ended)
    (happended : s'.appended = s.appended)
    (hconserved : ∀ u, s'.handedOver u ++ s'.undrained u = s.handedOver u ++ s.undrained u)
    (hemptied : ∀ u, s'.visited ≠ some u → s'.collector.swappedOut u = [])
    (hwithin : 0 < limit → ∀ u,
      (s'.collector.buffered u).length ≤ limit ∧ (s'.collector.swappedOut u).length ≤ limit)
    (hbatches : ∀ d ∈ s'.deliveries, d.events ≠ [] ∧ (0 < limit → d.events.length ≤ limit)) :
    Sound limit s' where
  limited := hlimit.trans h.limited
  distinct := hthreads.nodup h.distinct
  registered := (h.registry.of_drained hthreads hrecorders hended).registered
  conserved := by
    intro u
    rw [hconserved, happended]
    exact h.conserved u
  emptied := hemptied
  within := hwithin
  batches := hbatches

variable {d : Drainer} {rest : List Nat}

theorem swap
    (h : Sound limit s)
    (hdrain : s.drain = some (d, .swapping (t :: rest))) :
    Sound limit
      { s with collector := s.collector.swap t, drain := some (d, .handing t rest) } := by
  have hvisited : ∀ u, s.visited ≠ some u := by
    intro u
    simp [visited, hdrain]
  refine h.of_drained rfl ?_ rfl rfl rfl ?_ ?_ ?_ h.batches
  · rw [Collector.threads_swap]
  · intro u
    refine congrArg (s.handedOver u ++ ·) ?_
    simp only [undrained, inHand, hdrain, Collector.swappedOut_swap, Collector.buffered_swap]
    by_cases hu : u = t
    · simp [hu, h.emptied t (hvisited t)]
    · simp [hu, Ne.symm hu]
  · intro u hu
    have hut : u ≠ t := by
      rintro rfl
      exact hu rfl
    show (s.collector.swap t).swappedOut u = []
    rw [Collector.swappedOut_swap, if_neg hut]
    exact h.emptied u (hvisited u)
  · intro hpos u
    obtain ⟨hbuffered, hswapped⟩ := h.within hpos u
    show ((s.collector.swap t).buffered u).length ≤ limit ∧
      ((s.collector.swap t).swappedOut u).length ≤ limit
    rw [Collector.buffered_swap, Collector.swappedOut_swap]
    by_cases hu : u = t
    · rw [if_pos hu, if_pos hu]
      exact ⟨hswapped, hbuffered⟩
    · rw [if_neg hu, if_neg hu]
      exact ⟨hbuffered, hswapped⟩

end Sound

theorem mem_deliver
    {s : Interleaving} {d : Drainer} {t : Nat} {x : Delivery} :
    x ∈ s.deliver d t ↔ x ∈ s.deliveries ∨
      (s.collector.swappedOut t ≠ [] ∧ x = ⟨s.sinkOf d, t, s.collector.swappedOut t⟩) := by
  unfold deliver
  by_cases hempty : s.collector.swappedOut t = []
  · simp [hempty]
  · simp [hempty]

/-- What is delivered of a thread is what was swapped out of its buffer. -/
theorem handedOver_deliver
    (s : Interleaving) (d : Drainer) (t u : Nat) (stage : Option (Drainer × Stage)) :
    { s with deliveries := s.deliver d t, drain := stage }.handedOver u =
      s.handedOver u ++ if t = u then s.collector.swappedOut t else [] := by
  unfold handedOver deliver
  by_cases hempty : s.collector.swappedOut t = []
  · simp [hempty]
  · by_cases hu : t = u
    · subst hu
      simp [hempty]
    · simp [hempty, hu]

namespace Sound

variable {limit : Nat} {s : Interleaving} {t : Nat} {d : Drainer} {rest : List Nat}

theorem hand
    (h : Sound limit s)
    (hdrain : s.drain = some (d, .handing t rest)) :
    Sound limit { s with deliveries := s.deliver d t, drain := some (d, .clearing t rest) } := by
  refine h.of_drained rfl (List.Sublist.refl _) rfl rfl rfl ?_ ?_ h.within ?_
  · intro u
    rw [handedOver_deliver, List.append_assoc]
    refine congrArg (s.handedOver u ++ ·) ?_
    simp only [undrained, inHand, hdrain]
    by_cases hu : t = u
    · simp [hu]
    · simp [hu]
  · intro u hu
    refine h.emptied u ?_
    unfold visited at hu ⊢
    rw [hdrain]
    exact hu
  · intro x hx
    rcases mem_deliver.1 hx with hx | ⟨hnonempty, rfl⟩
    · exact h.batches x hx
    · exact ⟨hnonempty, fun hpos => (h.within hpos t).2⟩

theorem clear
    (h : Sound limit s)
    (hdrain : s.drain = some (d, .clearing t rest)) :
    Sound limit { s with collector := s.collector.clear t, drain := some (d, .swapping rest) } := by
  refine h.of_drained rfl ?_ rfl rfl rfl ?_ ?_ ?_ h.batches
  · rw [Collector.threads_clear]
  · intro u
    refine congrArg (s.handedOver u ++ ·) ?_
    simp only [undrained, inHand, hdrain, Collector.buffered_clear]
  · intro u _
    show (s.collector.clear t).swappedOut u = []
    rw [Collector.swappedOut_clear]
    by_cases hu : u = t
    · rw [if_pos hu]
    · rw [if_neg hu]
      refine h.emptied u ?_
      simp [visited, hdrain, Ne.symm hu]
  · intro hpos u
    obtain ⟨hbuffered, hswapped⟩ := h.within hpos u
    show ((s.collector.clear t).buffered u).length ≤ limit ∧
      ((s.collector.clear t).swappedOut u).length ≤ limit
    rw [Collector.buffered_clear, Collector.swappedOut_clear]
    refine ⟨hbuffered, ?_⟩
    split
    · exact Nat.zero_le _
    · exact hswapped

theorem forget
    (h : Sound limit s)
    (hdrain : s.drain = some (d, .forgetting (t :: rest))) :
    Sound limit
      { s with collector := s.collector.forget t, drain := some (d, .forgetting rest) } := by
  have hempty : ∀ u, s.collector.swappedOut u = [] := by
    intro u
    refine h.emptied u ?_
    simp [visited, hdrain]
  refine h.of_drained rfl (Collector.sublist_threads_forget s.collector t) rfl rfl rfl ?_ ?_ ?_
    h.batches
  · intro u
    refine congrArg (s.handedOver u ++ ·) ?_
    simp only [undrained, inHand, hdrain, Collector.buffered_forget h.distinct]
  · intro u _
    exact (Collector.swappedOut_forget h.distinct (hempty t) u).trans (hempty u)
  · intro hpos u
    show ((s.collector.forget t).buffered u).length ≤ limit ∧
      ((s.collector.forget t).swappedOut u).length ≤ limit
    rw [Collector.buffered_forget h.distinct, Collector.swappedOut_forget h.distinct (hempty t)]
    exact h.within hpos u

/-- A step that is only about how far the drain has come and about pollers. -/
theorem of_idle
    (h : Sound limit s)
    (hnothing : ∀ u, s.inHand u = [])
    (hunvisited : s.visited = none)
    {drain : Option (Drainer × Stage)} (pollers : Nat → Poller)
    (hnothing' : ∀ u, { s with drain, pollers }.inHand u = []) :
    Sound limit { s with drain, pollers } := by
  refine h.of_drained rfl (List.Sublist.refl _) rfl rfl rfl ?_ ?_ h.within h.batches
  · intro u
    refine congrArg (s.handedOver u ++ ·) ?_
    unfold undrained
    rw [hnothing, hnothing']
  · intro u _
    refine h.emptied u ?_
    rw [hunvisited]
    intro hsome
    cases hsome

/-- **A step of a drain** keeps the invariant. -/
theorem stepDrain
    (h : Sound limit s)
    {stage : Stage}
    (hdrain : s.drain = some (d, stage)) :
    Sound limit (s.stepDrain d stage) := by
  cases stage with
  | starting =>
      exact h.of_idle (by simp [inHand, hdrain]) (by simp [visited, hdrain]) s.pollers
        (by simp [inHand])
  | swapping waiting =>
      cases waiting with
      | nil =>
          exact h.of_idle (by simp [inHand, hdrain]) (by simp [visited, hdrain]) s.pollers
            (by simp [inHand])
      | cons t rest =>
          exact h.swap hdrain
  | handing t rest =>
      exact h.hand hdrain
  | clearing t rest =>
      exact h.clear hdrain
  | forgetting waiting =>
      cases waiting with
      | nil =>
          have hnothing : ∀ u, s.inHand u = [] := by simp [inHand, hdrain]
          have hunvisited : s.visited = none := by simp [visited, hdrain]
          cases d with
          | direct sink =>
              exact h.of_idle hnothing hunvisited s.pollers (by simp [inHand])
          | poller k =>
              exact h.of_idle hnothing hunvisited _ (by simp [inHand])
      | cons t rest =>
          exact h.forget hdrain

/-- Pollers alone change nothing of it. -/
theorem setPoller
    (h : Sound limit s)
    (k : Nat) (p : Poller) :
    Sound limit (s.setPoller k p) :=
  h.of_drained rfl (List.Sublist.refl _) rfl rfl rfl (fun _ => rfl) h.emptied h.within h.batches

/-- **Every step** keeps the invariant. -/
theorem step
    {s' : Interleaving}
    (h : Sound limit s)
    (hstep : Taken s s') :
    Sound limit s' := by
  cases hstep with
  | nothing =>
      exact h
  | call hcall hc =>
      exact h.call hcall hc
  | append hnext =>
      exact h.append hnext
  | leave t =>
      exact h.leave t
  | startDrain hfree _ =>
      exact h.of_idle (by simp [inHand, hfree]) (by simp [visited, hfree]) s.pollers
        (by simp [inHand])
  | goOn hdrain =>
      exact h.stepDrain hdrain
  | tick _ =>
      exact h.setPoller _ _
  | requestStop k =>
      exact h.setPoller _ _
  | seeStop _ _ =>
      exact h.setPoller _ _

theorem run
    (turns : List Turn)
    (h : Sound limit s) :
    Sound limit (s.run turns) := by
  induction turns generalizing s with
  | nil =>
      exact h
  | cons turn rest ih =>
      exact ih (h.step (taken_step s turn))

/-- **A thread that is forgotten** in a step ended before, and nothing of it is undrained. -/
theorem forgotten
    {s' : Interleaving}
    (h : Sound limit s)
    (hstep : Taken s s')
    (hknown : t ∈ s.collector.threads)
    (hgone : t ∉ s'.collector.threads) :
    t ∈ s.ended ∧ s.undrained t = [] := by
  cases hstep with
  | call _ hc =>
      refine absurd ?_ hgone
      show t ∈ Collector.threads _
      rw [hc.threads]
      split
      · exact hknown
      · exact List.mem_append_left _ hknown
  | append hnext =>
      refine absurd ?_ hgone
      show t ∈ Collector.threads _
      rw [Collector.threads_advance hnext]
      exact hknown
  | @goOn d stage hdrain =>
      match stage with
      | .starting => exact absurd hknown hgone
      | .swapping [] => exact absurd hknown hgone
      | .swapping (u :: _) => exact absurd (Collector.threads_swap s.collector u ▸ hknown) hgone
      | .handing _ _ => exact absurd hknown hgone
      | .clearing u _ => exact absurd (Collector.threads_clear s.collector u ▸ hknown) hgone
      | .forgetting [] => cases d <;> exact absurd hknown hgone
      | .forgetting (u :: rest) =>
          obtain ⟨_, hrecorder, hempty⟩ := Collector.threads_forget h.distinct hknown hgone
          constructor
          · by_contra hlive
            have hsome := h.registered t hknown hlive
            rw [hrecorder] at hsome
            cases hsome
          · simp [undrained, inHand, hdrain, hempty]
  | nothing =>
      exact absurd hknown hgone
  | leave _ =>
      exact absurd hknown hgone
  | startDrain _ _ =>
      exact absurd hknown hgone
  | tick _ =>
      exact absurd hknown hgone
  | requestStop _ =>
      exact absurd hknown hgone
  | seeStop _ _ =>
      exact absurd hknown hgone

end Sound

end Interleaving

end CallProfiler.Recording
