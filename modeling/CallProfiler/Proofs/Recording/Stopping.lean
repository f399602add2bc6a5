import CallProfiler.Proofs.Recording.Conservation
import CallProfiler.Proofs.Recording.Projection

/-!
# What a stop waits for

A poller that sees its stop drains once more and is finished after that.  What every thread had
appended when the stop was requested is fixed; the last drain starts later, and `Awaits` says how much
of it has been handed over while that drain goes on from thread to thread.

**Main statements.**
* `Awaits.step`: every step keeps what is known of a requested stop.
* `everything_is_handed_over`: the laws of drains, for every order of steps.
-/

namespace CallProfiler.Recording

open Profile (Event)

/-- A drain has still to swap the buffer of a thread, if it knows it. -/
def Stage.Awaits : Stage → Nat → Prop
  | .starting, _ => True
  | .swapping waiting, t => t ∈ waiting
  | .handing _ waiting, t => t ∈ waiting
  | .clearing _ waiting, t => t ∈ waiting
  | .forgetting _, _ => False

namespace Interleaving

/-- Pollers drain only while they are to drain, and for the last time only when a stop is seen. -/
structure Orderly (s : Interleaving) : Prop where
  working : ∀ k stage, s.drain = some (.poller k, stage) →
    (s.pollers k).place = .draining ∨ (s.pollers k).place = .drainingLast
  seen : ∀ k, (s.pollers k).place = .drainingLast ∨ (s.pollers k).place = .finished →
    (s.pollers k).stopRequested = true

/-- What threads had appended when a stop was requested is handed over when the poller is finished;
in its last drain it is so for the threads whose turn is over. -/
structure Awaits (s : Interleaving) (k : Nat) (before : Nat → List Event) : Prop where
  appended : ∀ t, before t <+: s.appended t
  last : (s.pollers k).place = .drainingLast → ∀ stage, s.drain = some (.poller k, stage) →
    ∀ t, stage.Awaits t ∨ (before t).length ≤ (s.handedOver t ++ s.inHand t).length
  finished : (s.pollers k).place = .finished → ∀ t, (before t).length ≤ (s.handedOver t).length

variable {limit : Nat} {s s' : Interleaving}

@[simp] theorem setPoller_pollers
    (s : Interleaving) (k i : Nat) (p : Poller) :
    (s.setPoller k p).pollers i = if i = k then p else s.pollers i :=
  rfl

/-- What a step of a drain can be, as far as pollers and batches are concerned. -/
inductive Moved (s : Interleaving) (d : Drainer) : Stage → Interleaving → Prop
  | on {stage : Stage} (c : Collector) (stage' : Stage) :
      Moved s d stage { s with collector := c, drain := some (d, stage') }
  | hand (u : Nat) (rest : List Nat) :
      Moved s d (.handing u rest)
        { s with deliveries := s.deliver d u, drain := some (d, .clearing u rest) }
  | ends : Moved s d (.forgetting []) (s.finishDrain d)

theorem moved_stepDrain
    (s : Interleaving) (d : Drainer) (stage : Stage) :
    Moved s d stage (s.stepDrain d stage) := by
  match stage with
  | .starting => exact .on _ _
  | .swapping [] => exact .on _ _
  | .swapping (_ :: _) => exact .on _ _
  | .handing _ _ => exact .hand _ _
  | .clearing _ _ => exact .on _ _
  | .forgetting [] => exact .ends
  | .forgetting (_ :: _) => exact .on _ _

namespace Moved

variable {d : Drainer} {stage : Stage}

theorem drain
    (h : Moved s d stage s') :
    s'.drain = none ∨ ∃ stage', s'.drain = some (d, stage') := by
  cases h with
  | on c stage' => exact .inr ⟨stage', rfl⟩
  | hand u rest => exact .inr ⟨_, rfl⟩
  | ends => cases d <;> exact .inl rfl

theorem appended
    (h : Moved s d stage s') :
    s'.appended = s.appended := by
  cases h with
  | on c stage' => rfl
  | hand u rest => rfl
  | ends => cases d <;> rfl

/-- A drain that is not over leaves all pollers as they are. -/
theorem pollers
    (h : Moved s d stage s') :
    s'.pollers = s.pollers ∨
      (stage = .forgetting [] ∧ s'.drain = none ∧
        ∃ k, d = .poller k ∧ s'.pollers = fun i =>
          if i = k then
            { s.pollers k with
              place := if (s.pollers k).place = .drainingLast then .finished else .waiting }
          else s.pollers i) := by
  cases h with
  | on c stage' => exact .inl rfl
  | hand u rest => exact .inl rfl
  | ends =>
      cases d with
      | direct _ => exact .inl rfl
      | poller k => exact .inr ⟨rfl, rfl, k, rfl, rfl⟩

theorem length_handedOver_le
    (h : Moved s d stage s')
    (t : Nat) :
    (s.handedOver t).length ≤ (s'.handedOver t).length := by
  cases h with
  | on c stage' =>
      exact Nat.le_refl _
  | hand u rest =>
      rw [handedOver_deliver s d u t (some (d, .clearing u rest)), List.length_append]
      exact Nat.le_add_right _ _
  | ends =>
      cases d <;> exact Nat.le_refl _

end Moved

namespace Orderly

theorem start
    (limit : Nat) (sinks : Nat → Nat) :
    Orderly (start limit sinks) where
  working := by
    intro k stage hdrain
    cases hdrain
  seen := by
    rintro k (hlast | hfinished)
    · cases hlast
    · cases hfinished

theorem step
    (h : Orderly s)
    (hstep : Taken s s') :
    Orderly s' := by
  cases hstep with
  | nothing =>
      exact h
  | call _ _ =>
      exact ⟨h.working, h.seen⟩
  | append _ =>
      exact ⟨h.working, h.seen⟩
  | leave _ =>
      exact ⟨h.working, h.seen⟩
  | startDrain _ hmay =>
      refine ⟨?_, h.seen⟩
      intro k stage hdrain
      injection hdrain with hpair
      have hd := congrArg (·.1) hpair
      subst hd
      simpa [mayDrain] using hmay
  | @goOn d stage hdrain =>
      have hmoved := moved_stepDrain s d stage
      rcases hmoved.pollers with hsame | ⟨_, hover, k, _, hpollers⟩
      · refine ⟨?_, by rw [hsame]; exact h.seen⟩
        intro k stage' hdrain'
        rw [hsame]
        rcases hmoved.drain with hover | ⟨stage'', hdrain''⟩
        · rw [hover] at hdrain'
          cases hdrain'
        · rw [hdrain''] at hdrain'
          injection hdrain' with hpair
          have hd := congrArg (·.1) hpair
          refine h.working k stage ?_
          rw [hdrain, show d = .poller k from hd]
      · refine ⟨?_, ?_⟩
        · intro i stage' hdrain'
          rw [hover] at hdrain'
          cases hdrain'
        · intro i hi
          rw [hpollers] at hi ⊢
          by_cases hik : i = k
          · subst hik
            simp only [if_true] at hi ⊢
            refine h.seen i (.inl ?_)
            by_contra hlast
            simp [hlast] at hi
          · simp only [if_neg hik] at hi ⊢
            exact h.seen i hi
  | @tick k hwaiting =>
      refine ⟨?_, ?_⟩
      · intro i stage hdrain
        by_cases hik : i = k
        · simp [hik]
        · simpa [hik] using h.working i stage hdrain
      · intro i hi
        by_cases hik : i = k
        · simp [hik] at hi
        · simp only [setPoller_pollers, if_neg hik] at hi ⊢
          exact h.seen i hi
  | requestStop k =>
      refine ⟨?_, ?_⟩
      · intro i stage hdrain
        have hworking := h.working i stage hdrain
        by_cases hik : i = k
        · subst hik
          simpa using hworking
        · simpa [hik] using hworking
      · intro i hi
        by_cases hik : i = k
        · simp [hik]
        · simp only [setPoller_pollers, if_neg hik] at hi ⊢
          exact h.seen i hi
  | @seeStop k hwaiting hrequested =>
      refine ⟨?_, ?_⟩
      · intro i stage hdrain
        by_cases hik : i = k
        · simp [hik]
        · simpa [hik] using h.working i stage hdrain
      · intro i hi
        by_cases hik : i = k
        · simp [hik, hrequested]
        · simp only [setPoller_pollers, if_neg hik] at hi ⊢
          exact h.seen i hi

end Orderly

/-! ## How far a drain has come -/

section Progress

variable {d : Drainer} {stage : Stage}

/-- What was handed over or is in hand stays so. -/
theorem progress_stepDrain
    (hdrain : s.drain = some (d, stage)) (t : Nat) :
    (s.handedOver t ++ s.inHand t).length ≤
      ((s.stepDrain d stage).handedOver t ++ (s.stepDrain d stage).inHand t).length := by
  match stage with
  | .starting => simp [stepDrain, inHand, hdrain, handedOver]
  | .swapping [] => simp [stepDrain, inHand, hdrain, handedOver]
  | .swapping (u :: rest) => simp [stepDrain, inHand, hdrain, handedOver]
  | .handing u rest =>
      have hhanded : (s.stepDrain d (.handing u rest)).handedOver t = _ :=
        handedOver_deliver s d u t (some (d, .clearing u rest))
      rw [hhanded]
      by_cases hu : u = t
      · subst hu
        simp [stepDrain, inHand, hdrain]
      · simp [stepDrain, inHand, hdrain, hu]
  | .clearing u rest => simp [stepDrain, inHand, hdrain, handedOver]
  | .forgetting [] => cases d <;> simp [stepDrain, finishDrain, setPoller, inHand, hdrain, handedOver]
  | .forgetting (u :: rest) => simp [stepDrain, inHand, hdrain, handedOver]

/-- When the turn of a thread is over, all that it has appended is handed over or in hand. -/
theorem turn_stepDrain
    (h : Sound limit s)
    (hdrain : s.drain = some (d, stage))
    {stage' : Stage}
    (hdrain' : (s.stepDrain d stage).drain = some (d, stage'))
    {t : Nat}
    (hawaits : stage.Awaits t) :
    stage'.Awaits t ∨ (s.appended t).length ≤
      ((s.stepDrain d stage).handedOver t ++ (s.stepDrain d stage).inHand t).length := by
  have hconserved := h.conserved t
  match stage with
  | .starting =>
      obtain rfl : Stage.swapping s.collector.threads = stage' := by
        simpa [stepDrain] using hdrain'
      by_cases hknown : t ∈ s.collector.threads
      · exact .inl hknown
      · right
        rw [← hconserved]
        simp [undrained, inHand, hdrain, stepDrain, handedOver,
          Collector.buffered_of_notMem hknown]
  | .swapping (u :: rest) =>
      obtain rfl : Stage.handing u rest = stage' := by
        simpa [stepDrain] using hdrain'
      rcases List.mem_cons.1 hawaits with rfl | hlater
      · right
        rw [← hconserved]
        simp [undrained, inHand, hdrain, stepDrain, handedOver, Collector.swappedOut_swap]
      · exact .inl hlater
  | .handing u rest =>
      obtain rfl : Stage.clearing u rest = stage' := by
        simpa [stepDrain] using hdrain'
      exact .inl hawaits
  | .clearing u rest =>
      obtain rfl : Stage.swapping rest = stage' := by
        simpa [stepDrain] using hdrain'
      exact .inl hawaits
  | .swapping [] => exact absurd hawaits List.not_mem_nil
  | .forgetting _ => exact absurd hawaits id

end Progress

namespace Awaits

variable {k : Nat} {before : Nat → List Event}

/-- The moment at which a stop is requested. -/
theorem request
    (h : Orderly s)
    (hnew : (s.pollers k).stopRequested = false) :
    (s.step (.requestStop k)).Awaits k s.appended where
  appended := fun t => List.prefix_refl _
  last := by
    intro hlast
    have hseen := h.seen k (.inl (by simpa [step] using hlast))
    rw [hnew] at hseen
    cases hseen
  finished := by
    intro hfinished
    have hseen := h.seen k (.inr (by simpa [step] using hfinished))
    rw [hnew] at hseen
    cases hseen

/-- Steps that leave drains and pollers alone. -/
theorem of_same
    (h : s.Awaits k before)
    (hpollers : s'.pollers = s.pollers)
    (hdrain : s'.drain = s.drain)
    (happended : ∀ t, s.appended t <+: s'.appended t)
    (hhanded : ∀ t, s'.handedOver t = s.handedOver t)
    (hhand : ∀ t, s'.inHand t = s.inHand t) :
    s'.Awaits k before where
  appended := fun t => (h.appended t).trans (happended t)
  last := by
    intro hlast stage hstage t
    rw [hpollers] at hlast
    rw [hdrain] at hstage
    rw [hhanded, hhand]
    exact h.last hlast stage hstage t
  finished := by
    intro hfinished t
    rw [hpollers] at hfinished
    rw [hhanded]
    exact h.finished hfinished t

theorem goOn
    (hs : Sound limit s)
    (h : s.Awaits k before)
    {d : Drainer} {stage : Stage}
    (hdrain : s.drain = some (d, stage)) :
    (s.stepDrain d stage).Awaits k before := by
  have hmoved := moved_stepDrain s d stage
  have happended := hmoved.appended
  rcases hmoved.pollers with hsame | ⟨rfl, hover, i, rfl, hpollers⟩
  · refine ⟨fun t => happended ▸ h.appended t, ?_, ?_⟩
    · intro hlast stage' hdrain' t
      rw [hsame] at hlast
      have hd : d = .poller k := by
        rcases hmoved.drain with hover | ⟨stage'', hdrain''⟩
        · rw [hover] at hdrain'
          cases hdrain'
        · rw [hdrain''] at hdrain'
          injection hdrain' with hpair
          exact congrArg (·.1) hpair
      subst hd
      rcases h.last hlast stage hdrain t with hawaits | hdone
      · rcases turn_stepDrain hs hdrain hdrain' hawaits with hawaits' | hdone
        · exact .inl hawaits'
        · exact .inr (Nat.le_trans (h.appended t).length_le hdone)
      · exact .inr (Nat.le_trans hdone (progress_stepDrain hdrain t))
    · intro hfinished t
      rw [hsame] at hfinished
      exact Nat.le_trans (h.finished hfinished t) (hmoved.length_handedOver_le t)
  · -- a drain of the poller `i` is over
    refine ⟨fun t => happended ▸ h.appended t, ?_, ?_⟩
    · intro _ stage' hdrain'
      rw [hover] at hdrain'
      cases hdrain'
    · intro hfinished t
      rw [hpollers] at hfinished
      refine Nat.le_trans ?_ (hmoved.length_handedOver_le t)
      by_cases hki : k = i
      · subst hki
        have hlast : (s.pollers k).place = .drainingLast := by
          by_contra hother
          simp [hother] at hfinished
        rcases h.last hlast (.forgetting []) hdrain t with hawaits | hdone
        · exact absurd hawaits id
        · simpa [inHand, hdrain] using hdone
      · simp only [if_neg hki] at hfinished
        exact h.finished hfinished t

/-- A poller that is not seen to stop or to be finished. -/
theorem setPoller
    (h : s.Awaits k before)
    {i : Nat} {p : Poller}
    (hlast : i = k → p.place = .drainingLast → (s.pollers k).place = .drainingLast ∨
      ∀ stage, s.drain ≠ some (.poller k, stage))
    (hfinished : i = k → p.place = .finished → (s.pollers k).place = .finished) :
    (s.setPoller i p).Awaits k before where
  appended := h.appended
  last := by
    intro hplace stage hdrain t
    by_cases hik : i = k
    · subst hik
      rcases hlast rfl (by simpa using hplace) with hbefore | hnone
      · exact h.last hbefore stage hdrain t
      · exact absurd hdrain (hnone stage)
    · refine h.last ?_ stage hdrain t
      simpa [Ne.symm hik] using hplace
  finished := by
    intro hplace t
    by_cases hik : i = k
    · subst hik
      exact h.finished (hfinished rfl (by simpa using hplace)) t
    · refine h.finished ?_ t
      simpa [Ne.symm hik] using hplace

/-- **Every step** keeps what is known of a requested stop. -/
theorem step
    (hs : Sound limit s)
    (ho : Orderly s)
    (h : s.Awaits k before)
    (hstep : Taken s s') :
    s'.Awaits k before := by
  cases hstep with
  | nothing =>
      exact h
  | call _ hc =>
      refine h.of_same rfl rfl (fun t => List.prefix_refl _) (fun _ => rfl) ?_
      intro t
      unfold inHand
      simp only [hc.swappedOut]
  | append hnext =>
      refine h.of_same rfl rfl ?_ (fun _ => rfl) ?_
      · intro t
        show s.appended t <+: if _ then _ else _
        split
        · exact List.prefix_append _ _
        · exact List.prefix_refl _
      · intro t
        unfold inHand
        simp only [Collector.swappedOut_advance hnext]
  | leave _ =>
      exact h.of_same rfl rfl (fun t => List.prefix_refl _) (fun _ => rfl) (fun _ => rfl)
  | startDrain hfree _ =>
      refine ⟨h.appended, ?_, h.finished⟩
      intro _ stage hdrain t
      injection hdrain with hpair
      have hstage := congrArg (·.2) hpair
      subst hstage
      exact .inl trivial
  | goOn hdrain =>
      exact h.goOn hs hdrain
  | tick hwaiting =>
      refine h.setPoller ?_ ?_
      · intro _ hlast
        cases hlast
      · intro _ hfinished
        cases hfinished
  | requestStop i =>
      refine h.setPoller ?_ ?_
      · rintro rfl hlast
        exact .inl hlast
      · rintro rfl hfinished
        exact hfinished
  | seeStop hwaiting _ =>
      refine h.setPoller ?_ ?_
      · rintro rfl _
        right
        intro stage hdrain
        rcases ho.working _ stage hdrain with hworking | hworking
        · rw [hwaiting] at hworking
          cases hworking
        · rw [hwaiting] at hworking
          cases hworking
      · intro _ hfinished
        cases hfinished

end Awaits

/-! ## All orders of steps -/

theorem received_eq_handedOver
    {sink t : Nat}
    (h : ∀ d ∈ s.deliveries, d.thread = t → d.sink = sink) :
    s.received sink t = s.handedOver t := by
  unfold received handedOver
  refine congrArg (List.flatMap Delivery.events) (List.filter_congr ?_)
  intro d hd
  by_cases hthread : d.thread = t
  · simp [hthread, h d hd hthread]
  · simp [hthread]

theorem orderly_run
    (turns : List Turn)
    (h : Orderly s) :
    Orderly (s.run turns) := by
  induction turns generalizing s with
  | nil =>
      exact h
  | cons turn rest ih =>
      exact ih (h.step (taken_step s turn))

theorem awaits_run
    {k : Nat} {before : Nat → List Event}
    (turns : List Turn)
    (hs : Sound limit s)
    (ho : Orderly s)
    (h : s.Awaits k before) :
    (s.run turns).Awaits k before := by
  induction turns generalizing s with
  | nil =>
      exact h
  | cons turn rest ih =>
      have hstep := taken_step s turn
      exact ih (hs.step hstep) (ho.step hstep) (h.step hs ho hstep)

/-- **Nothing is lost between a thread and a sink**, in any order of the steps of any number of
threads, drains and pollers.  What was handed over of a thread, then what is undrained, is what it
appended; with what it has still to append, this is what its calls record, in order, as if the thread were
by itself; no batch is empty or exceeds the limit; a thread is forgotten only when it has ended and
nothing of it is undrained; and when the call that stops a poller returns, all that was appended before
the call is handed over, to the poller's sink unless a drain for another one took it. -/
theorem everything_is_handed_over
    (limit : Nat) (sinks : Nat → Nat) (turns : List Turn) :
    let s := (start limit sinks).run turns
    (∀ t, s.handedOver t ++ s.undrained t = s.appended t) ∧
      (∀ t, s.appended t ++ s.collector.pendingOf t =
        (Solo.start.run ((start limit sinks).callsOf t turns)).recorded) ∧
      (∀ d ∈ s.deliveries, d.events ≠ [] ∧ (0 < limit → d.events.length ≤ limit)) ∧
      (∀ turn, ∀ t ∈ s.collector.threads, t ∉ (s.step turn).collector.threads →
        t ∈ s.ended ∧ s.undrained t = []) ∧
      ∀ k later, (s.pollers k).stopRequested = false →
        let s' := s.run (.requestStop k :: later)
        s'.hasStopped k → ∀ t, s.appended t <+: s'.handedOver t ∧
          ((∀ d ∈ s'.deliveries, d.thread = t → d.sink = sinks k) →
            s.appended t <+: s'.received (sinks k) t) := by
  intro s
  have hs : Sound limit s := (Sound.start limit sinks).run turns
  have ho : Orderly s := orderly_run turns (Orderly.start limit sinks)
  refine ⟨hs.conserved, ?_, hs.batches, ?_, ?_⟩
  · intro t
    exact (follows_run limit sinks turns t).1
  · intro turn t hknown hgone
    exact hs.forgotten (taken_step s turn) hknown hgone
  · intro k later hnew s' hstopped t
    have hrequest := taken_step s (.requestStop k)
    have hs' : Sound limit s' := hs.run (.requestStop k :: later)
    have hawaits : s'.Awaits k s.appended :=
      awaits_run later (hs.step hrequest) (ho.step hrequest) (Awaits.request ho hnew)
    have hhanded : s'.handedOver t <+: s'.appended t := by
      rw [← hs'.conserved t]
      exact List.prefix_append _ _
    have hall : s.appended t <+: s'.handedOver t :=
      List.prefix_of_prefix_length_le (hawaits.appended t) hhanded (hawaits.finished hstopped.2 t)
    refine ⟨hall, ?_⟩
    intro hsink
    rw [received_eq_handedOver hsink]
    exact hall

/-- A thread is held up in the middle of a call that replaces another one while its poller stops. -/
theorem everything_is_handed_over_held_up :
    let turns : List Turn := [.enter 7 8 1 10 5, .append 7, .enter 7 8 1 20 6, .append 7]
    let later : List Turn :=
      [.append 7, .leave 7, .seeStop 0, .startDrain (.poller 0), .goOn, .goOn, .append 7, .goOn,
        .goOn, .goOn, .goOn, .goOn]
    let s := (start 1 id).run turns
    let s' := s.run (.requestStop 0 :: later)
    s'.hasStopped 0 ∧ s.appended 7 = [⟨10, 5⟩] ∧ s'.undrained 7 = [.exit 20] ∧
      s'.collector.pendingOf 7 = [⟨20, 6⟩] ∧
      s'.appended 7 ++ s'.collector.pendingOf 7 = [⟨10, 5⟩, .exit 20, ⟨20, 6⟩] ∧
      s.appended 7 <+: s'.received 0 7 := by
  intro turns later s s'
  have hstopped : s'.hasStopped 0 := ⟨by decide, by decide⟩
  have hlaws := (everything_is_handed_over 1 id turns).2.2.2.2 0 later (by decide) hstopped 7
  have hrecorded := (everything_is_handed_over 1 id (turns ++ .requestStop 0 :: later)).2.1 7
  have hcalls : (start 1 id).callsOf 7 (turns ++ .requestStop 0 :: later) =
      [.enter 7 8 1 10 5, .enter 7 8 1 20 6] := by
    decide
  have hrun : (start 1 id).run (turns ++ .requestStop 0 :: later) = s' := List.foldl_append
  rw [hrun, hcalls] at hrecorded
  exact ⟨hstopped, by decide, by decide, by decide, hrecorded, hlaws.2 (by decide)⟩

end Interleaving

end CallProfiler.Recording
