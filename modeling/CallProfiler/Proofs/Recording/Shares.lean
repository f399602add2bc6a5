import CallProfiler.Proofs.Recording.Stopping
import CallProfiler.Proofs.Recording.Uninterrupted

/-!
# What a step means for one thread

All that a thread has appended was handed over, or is swapped out, or is in its buffer.  A step appends an
event, swaps the buffers, hands over what was swapped out, or leaves all of it: `Shift` lists these
possibilities, and what holds of every thread follows from them.

**Main statements.**
* `Shift.complete`, `Shift.sequence`: what a step keeps, and what more it keeps if nothing is left over.
* `shift_step`, `Steady.step`: what a step can mean for a thread, and which threads await a drain.
* `buffered_of_reached`, `exists_forgetting`: what a drain reaches, and that it reaches all threads.
-/

namespace CallProfiler.Recording

open Profile (Event)

/-! ## What is left of a thread -/

namespace Interleaving

/-- A drain hands over what was swapped out of a thread's buffer. -/
def isHanding (s : Interleaving) (t : Nat) : Bool :=
  match s.drain with
  | some (_, .handing u _) => u = t
  | _ => false

/-- What was swapped out of a thread's buffer, unless it was taken over. -/
def out (s : Interleaving) (t : Nat) : List Event :=
  match s.drain with
  | some (_, .clearing u _) => if u = t then [] else s.collector.swappedOut t
  | _ => s.collector.swappedOut t

end Interleaving

/-- What there is of one thread. -/
structure Share where
  handing : Bool
  handedOver : List Event
  out : List Event
  buffered : List Event
  appended : List Event

/-- What a step can mean for one thread, if its acceptor comes back. -/
inductive Shift : Share → Share → Prop
  | same (p : Share) : Shift p p
  | append {handing : Bool} {handedOver out buffered appended : List Event} (e : Event) :
      Shift ⟨handing, handedOver, out, buffered, appended⟩
        ⟨handing, handedOver, out, buffered ++ [e], appended ++ [e]⟩
  | swap {handedOver out buffered appended : List Event} :
      Shift ⟨false, handedOver, out, buffered, appended⟩ ⟨true, handedOver, buffered, out, appended⟩
  | hand {handedOver out buffered appended : List Event} :
      Shift ⟨true, handedOver, out, buffered, appended⟩
        ⟨false, handedOver ++ out, [], buffered, appended⟩

namespace Share

/-- All there is, in the order in which it leaves if nothing is left over. -/
def sequence (p : Share) : List Event := p.handedOver ++ p.out ++ p.buffered

/-- There is what was appended, nothing more and nothing less. -/
def Complete (p : Share) : Prop := p.sequence.Perm p.appended

/-- Nothing is out but what is being handed over. -/
def Tidy (p : Share) : Prop := p.handing = true ∨ p.out = []

theorem Tidy.out_eq_nil
    {p : Share}
    (hp : p.Tidy)
    (hhanding : p.handing = false) :
    p.out = [] :=
  hp.resolve_left fun h => Bool.false_ne_true (hhanding.symm.trans h)

end Share

namespace Shift

variable {p q : Share}

theorem complete
    (h : Shift p q)
    (hp : p.Complete) :
    q.Complete := by
  unfold Share.Complete Share.sequence at hp ⊢
  cases h with
  | same => exact hp
  | append e =>
      rw [← List.append_assoc]
      exact hp.append_right [e]
  | @swap handedOver out buffered appended =>
      rw [List.append_assoc] at hp ⊢
      exact (List.perm_append_comm.append_left handedOver).trans hp
  | hand => rwa [List.append_nil]

theorem tidy
    (h : Shift p q)
    (hp : p.Tidy) :
    q.Tidy := by
  cases h with
  | same => exact hp
  | append e => exact hp
  | swap => exact .inl rfl
  | hand => exact .inr rfl

/-- While nothing is left over, what there is only grows at its end. -/
theorem sequence
    (h : Shift p q)
    (hp : p.Tidy) :
    ∃ new, q.appended = p.appended ++ new ∧ q.sequence = p.sequence ++ new := by
  cases h with
  | same => exact ⟨[], by simp⟩
  | append e => exact ⟨[e], by simp [Share.sequence]⟩
  | @swap handedOver out buffered appended =>
      obtain rfl : out = [] := hp.out_eq_nil rfl
      exact ⟨[], by simp [Share.sequence]⟩
  | hand => exact ⟨[], by simp [Share.sequence]⟩

/-- What left the buffer stays so, while nothing is left over. -/
theorem length_le
    (h : Shift p q)
    (hp : p.Tidy) :
    (p.handedOver ++ p.out).length ≤ (q.handedOver ++ q.out).length := by
  cases h with
  | same => exact Nat.le_refl _
  | append e => exact Nat.le_refl _
  | @swap handedOver out buffered appended =>
      obtain rfl : out = [] := hp.out_eq_nil rfl
      simp
  | hand => simp

end Shift

namespace Interleaving

def share (s : Interleaving) (t : Nat) : Share :=
  ⟨s.isHanding t, s.handedOver t, s.out t, s.collector.buffered t, s.appended t⟩

/-- If nothing is left over, what was swapped out is in hand. -/
theorem sequence_share
    {s : Interleaving} {t : Nat}
    (htidy : (s.share t).Tidy) :
    (s.share t).sequence = s.handedOver t ++ s.undrained t := by
  have hinHand : s.out t = s.inHand t := by
    rcases htidy with hhanding | hout
    · change s.isHanding t = true at hhanding
      unfold isHanding at hhanding
      split at hhanding
      next d u waiting hdrain =>
        simp only [out, inHand, hdrain, if_pos (of_decide_eq_true hhanding)]
      next => cases hhanding
    · change s.out t = [] at hout
      rw [hout]
      unfold inHand
      split
      next d u waiting hdrain =>
        simp only [out, hdrain] at hout
        rw [hout, ite_self]
      next => rfl
  rw [undrained, ← hinHand, ← List.append_assoc]
  rfl

/-- What is out while a drain goes on belongs to a thread that the drain has still to visit, or visits. -/
structure Steady (s : Interleaving) : Prop extends Registry s where
  awaited : ∀ t d stage, s.drain = some (d, stage) → s.isHanding t = false → s.out t ≠ [] →
    stage.Awaits t

variable {s s' : Interleaving} {d : Drainer} {t u : Nat} {rest : List Nat}

theorem shift_append
    {e : Event}
    (hnext : s.collector.next? u = some e) :
    Shift (s.share t) (share
      { s with
        collector := s.collector.advance u
        appended := fun v => if v = u then s.appended v ++ [e] else s.appended v } t) := by
  simp only [share, out, Collector.buffered_advance hnext, Collector.swappedOut_advance hnext]
  by_cases htu : t = u
  · simp only [if_pos htu]
    exact .append e
  · simp only [if_neg htu]
    exact .same _

theorem shift_swap
    (hdrain : s.drain = some (d, .swapping (u :: rest))) :
    Shift (s.share t)
      (share { s with collector := s.collector.swap u, drain := some (d, .handing u rest) } t) := by
  simp only [share, isHanding, out, hdrain, Collector.buffered_swap, Collector.swappedOut_swap]
  by_cases htu : t = u
  · simp only [if_pos htu, decide_eq_true htu.symm]
    exact .swap
  · simp only [if_neg htu, decide_eq_false (Ne.symm htu)]
    exact .same _

theorem shift_hand
    (hdrain : s.drain = some (d, .handing u rest)) :
    Shift (s.share t)
      (share { s with deliveries := s.deliver d u, drain := some (d, .clearing u rest) } t) := by
  rw [share, share, handedOver_deliver]
  simp only [isHanding, out, hdrain]
  by_cases hut : u = t
  · subst hut
    simp only [decide_true]
    exact .hand
  · simp only [if_neg hut, decide_eq_false hut, List.append_nil]
    exact .same _

theorem share_clear
    (hdrain : s.drain = some (d, .clearing u rest)) :
    share { s with collector := s.collector.clear u, drain := some (d, .swapping rest) } t =
      s.share t := by
  simp only [share, isHanding, out, hdrain, Collector.buffered_clear, Collector.swappedOut_clear,
    eq_comm (a := t)]
  rfl

/-- What a drain swapped out is cleared before it forgets any thread. -/
theorem Steady.swappedOut_eq_nil
    (h : s.Steady)
    {waiting : List Nat}
    (hdrain : s.drain = some (d, .forgetting waiting))
    (t : Nat) :
    s.collector.swappedOut t = [] := by
  by_contra hout
  refine h.awaited t d _ hdrain ?_ ?_
  · simp [isHanding, hdrain]
  · simpa only [out, hdrain] using hout

theorem Steady.out_eq_nil
    (h : s.Steady)
    {waiting : List Nat}
    (hdrain : s.drain = some (d, .forgetting waiting))
    (t : Nat) :
    s.out t = [] := by
  simpa only [out, hdrain] using h.swappedOut_eq_nil hdrain t

theorem share_forget
    (h : s.Steady)
    (hdrain : s.drain = some (d, .forgetting (u :: rest))) :
    share { s with collector := s.collector.forget u, drain := some (d, .forgetting rest) } t =
      s.share t := by
  simp only [share, isHanding, out, hdrain, Collector.buffered_forget h.distinct,
    Collector.swappedOut_forget h.distinct (h.swappedOut_eq_nil hdrain u)]
  rfl

theorem share_finishDrain
    {waiting : List Nat}
    (hdrain : s.drain = some (d, .forgetting waiting)) :
    (s.finishDrain d).share t = s.share t := by
  cases d <;> simp [share, isHanding, out, finishDrain, setPoller, handedOver, hdrain]

/-- **What a step can mean** for a thread. -/
theorem shift_step
    (h : s.Steady)
    (hstep : Taken s s')
    (t : Nat) :
    Shift (s.share t) (s'.share t) := by
  have of_eq : s'.share t = s.share t → Shift (s.share t) (s'.share t) := fun heq => heq ▸ .same _
  cases hstep with
  | nothing => exact .same _
  | call _ hc =>
      apply of_eq
      simp only [share, out, hc.buffered, hc.swappedOut]
      rfl
  | append hnext => exact shift_append hnext
  | leave _ => exact .same _
  | startDrain hfree _ =>
      apply of_eq
      simp only [share, isHanding, out, hfree]
      rfl
  | tick _ => exact .same _
  | requestStop _ => exact .same _
  | seeStop _ _ => exact .same _
  | @goOn d stage hdrain =>
      match stage with
      | .starting =>
          apply of_eq
          simp only [share, isHanding, out, hdrain]
          rfl
      | .swapping [] =>
          apply of_eq
          simp only [share, isHanding, out, hdrain]
          rfl
      | .swapping (_ :: _) => exact shift_swap hdrain
      | .handing _ _ => exact shift_hand hdrain
      | .clearing _ _ => exact of_eq (share_clear hdrain)
      | .forgetting [] => exact of_eq (share_finishDrain hdrain)
      | .forgetting (_ :: _) => exact of_eq (share_forget h hdrain)

namespace Steady

theorem start
    (limit : Nat) (sinks : Nat → Nat) :
    (start limit sinks).Steady where
  toRegistry := Registry.start limit sinks
  awaited := by
    intro t d stage hdrain
    cases hdrain

/-- A thread of which anything is out is known. -/
theorem mem_threads
    {c : Collector}
    (hout : c.swappedOut t ≠ []) :
    t ∈ c.threads := by
  by_contra hunknown
  apply hout
  rw [Collector.swappedOut, Collector.log?_eq_none_iff.2 hunknown]
  rfl

/-- Where a step leaves the drain as it is, it leaves what is out. -/
theorem of_out_eq
    (h : s.Steady)
    (hregistry : Registry s')
    (hdrain : s'.drain = s.drain)
    (hout : ∀ t, s'.out t = s.out t) :
    s'.Steady where
  toRegistry := hregistry
  awaited := by
    intro t d stage hstage hhanding hleft
    refine h.awaited t d stage (hdrain ▸ hstage) ?_ (hout t ▸ hleft)
    rwa [isHanding, ← hdrain]

theorem stepDrain
    (h : s.Steady)
    {stage : Stage}
    (hdrain : s.drain = some (d, stage)) :
    (s.stepDrain d stage).Steady where
  toRegistry := h.toRegistry.stepDrain d stage
  awaited := by
    intro t d' stage' hstage hhanding hout
    -- What awaits the drain before the step, by the stage in which the step finds it.
    have hbefore := h.awaited t d stage hdrain
    simp only [isHanding, out, hdrain] at hbefore
    match stage with
    | .starting =>
        cases hstage
        exact mem_threads hout
    | .swapping [] =>
        cases hstage
        exact absurd (hbefore rfl hout) List.not_mem_nil
    | .swapping (u :: rest) =>
        cases hstage
        have hne : t ≠ u := fun heq => of_decide_eq_false hhanding heq.symm
        have hout' : (s.collector.swap u).swappedOut t ≠ [] := hout
        rw [Collector.swappedOut_swap, if_neg hne] at hout'
        exact (List.mem_cons.1 (hbefore rfl hout')).resolve_left hne
    | .handing u rest =>
        cases hstage
        have hne : u ≠ t := by
          rintro rfl
          exact hout (if_pos rfl)
        have hout' : s.collector.swappedOut t ≠ [] := fun hnone => hout ((if_neg hne).trans hnone)
        exact hbefore (decide_eq_false hne) hout'
    | .clearing u rest =>
        cases hstage
        have hout' : (s.collector.clear u).swappedOut t ≠ [] := hout
        rw [Collector.swappedOut_clear] at hout'
        have hne : t ≠ u := by
          rintro rfl
          exact hout' (if_pos rfl)
        rw [if_neg hne] at hout'
        exact hbefore rfl fun hnone => hout' ((if_neg (Ne.symm hne)).symm.trans hnone)
    | .forgetting [] =>
        cases d <;> cases hstage
    | .forgetting (u :: rest) =>
        cases hstage
        have hout' : (s.collector.forget u).swappedOut t ≠ [] := hout
        rw [Collector.swappedOut_forget h.distinct (h.swappedOut_eq_nil hdrain u)] at hout'
        exact hbefore rfl hout'

theorem step
    (h : s.Steady)
    (hstep : Taken s s') :
    s'.Steady := by
  have hregistry := h.toRegistry.step hstep
  cases hstep with
  | nothing => exact h
  | call _ hc =>
      refine h.of_out_eq hregistry rfl fun t => ?_
      simp only [out, hc.swappedOut]
  | append hnext =>
      refine h.of_out_eq hregistry rfl fun t => ?_
      simp only [out, Collector.swappedOut_advance hnext]
  | leave _ => exact h.of_out_eq hregistry rfl fun _ => rfl
  | startDrain _ _ =>
      refine ⟨hregistry, ?_⟩
      intro t d stage hstage _ _
      cases hstage
      exact trivial
  | goOn hdrain => exact h.stepDrain hdrain
  | tick _ => exact h.of_out_eq hregistry rfl fun _ => rfl
  | requestStop _ => exact h.of_out_eq hregistry rfl fun _ => rfl
  | seeStop _ _ => exact h.of_out_eq hregistry rfl fun _ => rfl

end Steady

/-! ## What a drain reaches -/

/-- Once a thread does not await the drain any more, there is nothing left in its buffer but what it
appends later. -/
theorem buffered_of_reached
    (htidy : (s.share t).Tidy)
    (hstep : Taken s s')
    (hbefore : ∀ d stage, s.drain = some (d, stage) → stage.Awaits t)
    {stage : Stage}
    (hafter : s'.drain = some (d, stage))
    (hreached : ¬ stage.Awaits t) :
    s'.collector.buffered t = [] := by
  cases hstep with
  | nothing | call _ _ | append _ | leave _ | tick _ | requestStop _ | seeStop _ _ =>
      exact absurd (hbefore d stage hafter) hreached
  | startDrain _ _ =>
      cases hafter
      exact absurd trivial hreached
  | @goOn d' stage' hdrain =>
      have hawaits := hbefore d' stage' hdrain
      match stage' with
      | .starting =>
          cases hafter
          exact Collector.buffered_of_notMem hreached
      | .swapping [] => exact absurd hawaits List.not_mem_nil
      | .swapping (u :: rest) =>
          cases hafter
          have htu : t = u := (List.mem_cons.1 hawaits).resolve_right hreached
          have hout : s.collector.swappedOut t = [] := by
            have hnone := htidy.out_eq_nil (by simp [share, isHanding, hdrain])
            simpa only [share, out, hdrain] using hnone
          have hswap := Collector.buffered_swap s.collector u t
          rw [if_pos htu, hout] at hswap
          exact hswap
      | .handing _ _ =>
          cases hafter
          exact absurd hawaits hreached
      | .clearing _ _ =>
          cases hafter
          exact absurd hawaits hreached
      | .forgetting _ => exact absurd hawaits not_false

/-- A drain goes through if nothing stops it. -/
theorem exists_forgetting_of_swapping
    (waiting : List Nat)
    (hdrain : s.drain = some (d, .swapping waiting)) :
    ∃ n rest, (s.run (List.replicate n .goOn)).drain = some (d, .forgetting rest) := by
  induction waiting generalizing s with
  | nil =>
      refine ⟨1, s.collector.threads, ?_⟩
      show (s.step .goOn).drain = _
      rw [step_goOn hdrain]
      rfl
  | cons t waiting ih =>
      have hthree : (s.run (List.replicate 3 .goOn)).drain = some (d, .swapping waiting) := by
        show (((s.step .goOn).step .goOn).step .goOn).drain = _
        rw [step_goOn hdrain]
        rfl
      obtain ⟨n, rest, hrest⟩ := ih hthree
      refine ⟨3 + n, rest, ?_⟩
      rw [run_replicate_add]
      exact hrest

theorem exists_forgetting
    {stage : Stage}
    (hdrain : s.drain = some (d, stage)) :
    ∃ n rest, (s.run (List.replicate n .goOn)).drain = some (d, .forgetting rest) := by
  have later : ∀ m waiting, (s.run (List.replicate m .goOn)).drain = some (d, .swapping waiting) →
      ∃ n rest, (s.run (List.replicate n .goOn)).drain = some (d, .forgetting rest) := by
    intro m waiting hswapping
    obtain ⟨n, rest, hrest⟩ := exists_forgetting_of_swapping waiting hswapping
    exact ⟨m + n, rest, by rw [run_replicate_add]; exact hrest⟩
  cases stage with
  | starting =>
      refine later 1 s.collector.threads ?_
      show (s.step .goOn).drain = _
      rw [step_goOn hdrain]
      rfl
  | swapping waiting => exact later 0 waiting hdrain
  | handing t waiting =>
      refine later 2 waiting ?_
      show ((s.step .goOn).step .goOn).drain = _
      rw [step_goOn hdrain]
      rfl
  | clearing t waiting =>
      refine later 1 waiting ?_
      show (s.step .goOn).drain = _
      rw [step_goOn hdrain]
      rfl
  | forgetting rest => exact ⟨0, rest, hdrain⟩

end Interleaving

end CallProfiler.Recording
