import CallProfiler.Recording.Interleaving

/-!
# Drains that nothing interrupts

`Collector.drain` is the drain whose steps follow each other with nothing in between.

**Main statement.**
* `run_drain`: taking the steps of a drain, from its start to its end, is `Collector.drain`.
-/

namespace CallProfiler.Recording

open Profile (Event)

namespace Interleaving

variable {s : Interleaving} {sink : Nat}

/-- An acceptor that notes what it is handed. -/
def noting (sink : Nat) : Collector.Acceptor (List Delivery) :=
  fun thread events deliveries => (true, deliveries ++ [⟨sink, thread, events⟩])

theorem run_append
    (s : Interleaving) (turns turns' : List Turn) :
    s.run (turns ++ turns') = (s.run turns).run turns' :=
  List.foldl_append

theorem run_replicate_add
    (s : Interleaving) (m n : Nat) :
    s.run (List.replicate (m + n) .goOn) =
      (s.run (List.replicate m .goOn)).run (List.replicate n .goOn) := by
  rw [← List.replicate_append_replicate, run_append]

theorem step_goOn
    {d : Drainer} {stage : Stage}
    (h : s.drain = some (d, stage)) :
    s.step .goOn = s.stepDrain d stage := by
  simp only [step, h]

/-- Visiting the threads that wait, one after the other. -/
theorem run_swapping
    (waiting : List Nat)
    (h : s.drain = some (.direct sink, .swapping waiting)) :
    ∃ c deliveries,
      Collector.drainThreads (noting sink) waiting s.collector s.deliveries =
        (true, c, deliveries) ∧
      s.run (List.replicate (3 * waiting.length) .goOn) =
        { s with collector := c, deliveries, drain := some (.direct sink, .swapping []) } := by
  induction waiting generalizing s with
  | nil =>
      refine ⟨s.collector, s.deliveries, rfl, ?_⟩
      rw [← h]
      rfl
  | cons t rest ih =>
      let s1 : Interleaving :=
        { s with collector := s.collector.swap t, drain := some (.direct sink, .handing t rest) }
      let s2 : Interleaving :=
        { s1 with
          deliveries := s1.deliver (.direct sink) t
          drain := some (.direct sink, .clearing t rest) }
      let s3 : Interleaving :=
        { s2 with
          collector := s2.collector.clear t
          drain := some (.direct sink, .swapping rest) }
      have hthree : s.run (List.replicate 3 .goOn) = s3 := by
        show ((s.step .goOn).step .goOn).step .goOn = s3
        rw [step_goOn h]
        rfl
      obtain ⟨c, deliveries, hdrain, hrun⟩ := ih (s := s3) rfl
      refine ⟨c, deliveries, ?_, ?_⟩
      · rw [← hdrain]
        by_cases hempty : (s.collector.swap t).swappedOut t = []
        · simp [Collector.drainThreads, hempty, s3, s2, s1, deliver]
        · simp [Collector.drainThreads, hempty, s3, s2, s1, deliver, noting, sinkOf]
      · rw [List.length_cons, Nat.mul_succ, Nat.add_comm, run_replicate_add, hthree, hrun]

/-- Forgetting the threads that ended, one after the other. -/
theorem run_forgetting
    (waiting : List Nat)
    (h : s.drain = some (.direct sink, .forgetting waiting)) :
    s.run (List.replicate (waiting.length + 1) .goOn) =
      { s with collector := waiting.foldl Collector.forget s.collector, drain := none } := by
  induction waiting generalizing s with
  | nil =>
      show s.step .goOn = _
      rw [step_goOn h]
      rfl
  | cons t rest ih =>
      let s1 : Interleaving :=
        { s with
          collector := s.collector.forget t
          drain := some (.direct sink, .forgetting rest) }
      have hone : s.step .goOn = s1 := step_goOn h
      have hrest := ih (s := s1) rfl
      rw [List.length_cons, List.replicate_succ]
      show (s.step .goOn).run _ = _
      rw [hone, hrest]
      rfl

/-- **A drain that nothing interrupts** is `Collector.drain`. -/
theorem run_drain
    (h : s.drain = none) (sink : Nat) :
    ∃ n c deliveries,
      s.collector.drain (noting sink) s.deliveries = (true, c, deliveries) ∧
      s.run (.startDrain (.direct sink) :: List.replicate n .goOn) =
        { s with collector := c, deliveries } := by
  let s1 : Interleaving := { s with drain := some (.direct sink, .starting) }
  let s2 : Interleaving := { s with drain := some (.direct sink, .swapping s.collector.threads) }
  have hstart : s.step (.startDrain (.direct sink)) = s1 := by
    simp [step, h, mayDrain, s1]
  have hlook : s1.step .goOn = s2 := rfl
  obtain ⟨c, deliveries, hdrain, hswap⟩ := run_swapping (s := s2) s.collector.threads rfl
  let s3 : Interleaving :=
    { s with collector := c, deliveries, drain := some (.direct sink, .swapping []) }
  let s4 : Interleaving :=
    { s with collector := c, deliveries, drain := some (.direct sink, .forgetting c.threads) }
  have hlast : s3.step .goOn = s4 := rfl
  have hforget := run_forgetting (s := s4) c.threads rfl
  refine ⟨1 + (3 * s.collector.threads.length + (1 + (c.threads.length + 1))),
    c.threads.foldl Collector.forget c, deliveries, ?_, ?_⟩
  · unfold Collector.drain
    rw [show Collector.drainThreads (noting sink) s.collector.threads s.collector s.deliveries = _
      from hdrain]
  · show (s.step (.startDrain (.direct sink))).run _ = _
    rw [hstart, run_replicate_add]
    show ((s1.step .goOn).run _) = _
    rw [hlook, run_replicate_add, hswap, run_replicate_add]
    show ((s3.step .goOn).run _) = _
    rw [hlast, hforget, ← h]

end Interleaving

end CallProfiler.Recording
