import CallProfiler.Proofs.Recording.Shares

/-!
# Drains that are abandoned

An acceptor may not come back.  The drain ends there, and what the acceptor was handed stays swapped out.
The collector is used on: the next drain swaps the leftover back into the buffer of its thread, where the
thread appends to it, and hands over what was appended in the meantime; the drain after that hands over the
leftover.  So nothing is lost, and of every thread whose batches were all taken over nothing is doubled or
reordered, but a batch that was abandoned is handed over once more, after later events.

**Main statements.**
* `Trial.complete_run`, `Trial.sequence_run`: nothing is lost; what stays in order, and for how long.
* `Trial.run_abandoned_drain`: `Collector.drain` with an acceptor that does not come back.
* `Trial.handed_over_despite_abandonment`: what holds however many drains are abandoned.
-/

namespace CallProfiler.Recording

open Profile (Event)

/-! ## Acceptors that do not come back -/

namespace Interleaving

/-- The drain ends where it stands, and the worker of a poller ends with it. -/
def breakOff (s : Interleaving) (d : Drainer) : Interleaving :=
  match d with
  | .direct _ => { s with drain := none }
  | .poller k => { s with drain := none }.setPoller k { s.pollers k with place := .finished }

end Interleaving

/-- A collector in use, with acceptors that may not come back. -/
structure Trial where
  now : Interleaving
  /-- The batches whose acceptors did not come back, in order. -/
  abandoned : List Delivery

namespace Trial

open Interleaving (Steady)

/-- What happens next. -/
inductive Move where
  | turn (turn : Turn)
  /-- The acceptor that is handed a batch does not come back. -/
  | abandon
  deriving DecidableEq

def start (limit : Nat) (sinks : Nat → Nat) : Trial := ⟨.start limit sinks, []⟩

/-- The drain that hands over a batch ends there; with nothing to hand over no acceptor is called. -/
def abandon (x : Trial) : Trial :=
  match x.now.drain with
  | some (d, .handing t _) =>
    if x.now.collector.swappedOut t = [] then x
    else ⟨x.now.breakOff d, x.abandoned ++ [⟨x.now.sinkOf d, t, x.now.collector.swappedOut t⟩]⟩
  | _ => x

def step (x : Trial) : Move → Trial
  | .turn turn => { x with now := x.now.step turn }
  | .abandon => x.abandon

def run (x : Trial) (moves : List Move) : Trial := moves.foldl step x

/-- The batches of a thread whose acceptors did not come back. -/
def abandonedOf (x : Trial) (t : Nat) : List Delivery := x.abandoned.filter (·.thread = t)

variable {x : Trial} {t : Nat}

/-- What it means that an acceptor does not come back. -/
theorem abandon_cases
    (x : Trial) :
    x.abandon = x ∨ ∃ d u waiting, x.now.drain = some (d, .handing u waiting) ∧
      x.abandon =
        ⟨x.now.breakOff d, x.abandoned ++ [⟨x.now.sinkOf d, u, x.now.collector.swappedOut u⟩]⟩ := by
  unfold abandon
  split
  next d u waiting hdrain =>
    split
    · exact .inl rfl
    · exact .inr ⟨d, u, waiting, hdrain, rfl⟩
  next => exact .inl rfl

/-- A thread keeps what it has, also what its acceptor was handed. -/
theorem share_breakOff
    {s : Interleaving} {d : Drainer} {u : Nat} {waiting : List Nat}
    (hdrain : s.drain = some (d, .handing u waiting)) :
    (s.breakOff d).share t = { s.share t with handing := false } := by
  cases d <;>
    simp [Interleaving.share, Interleaving.isHanding, Interleaving.out, Interleaving.breakOff,
      Interleaving.setPoller, Interleaving.handedOver, hdrain]

theorem abandonedOf_append
    (now : Interleaving) (b : Delivery) (t : Nat) :
    abandonedOf ⟨now, x.abandoned ++ [b]⟩ t =
      x.abandonedOf t ++ if b.thread = t then [b] else [] := by
  by_cases hb : b.thread = t
  · simp [abandonedOf, hb]
  · simp [abandonedOf, hb]

/-- **What a move can mean** for a thread of which it abandons nothing. -/
theorem shift_move
    (h : x.now.Steady)
    {move : Move}
    (hkept : (x.step move).abandonedOf t = x.abandonedOf t) :
    Shift (x.now.share t) ((x.step move).now.share t) := by
  cases move with
  | turn turn => exact Interleaving.shift_step h (Interleaving.taken_step _ _) t
  | abandon =>
      rcases x.abandon_cases with hsame | ⟨d, u, waiting, hdrain, habandon⟩
      · rw [step, hsame]
        exact .same _
      · have hut : u ≠ t := by
          rintro rfl
          rw [step, habandon, abandonedOf_append, if_pos rfl] at hkept
          simp at hkept
        have hhanding : x.now.isHanding t = false := by
          simp [Interleaving.isHanding, hdrain, hut]
        rw [step, habandon, share_breakOff hdrain, ← hhanding]
        exact .same _

/-- Whatever happens, a thread's share is shifted or kept. -/
theorem complete_move
    (h : x.now.Steady)
    (move : Move)
    (hcomplete : (x.now.share t).Complete) :
    ((x.step move).now.share t).Complete := by
  cases move with
  | turn turn => exact (Interleaving.shift_step h (Interleaving.taken_step _ _) t).complete hcomplete
  | abandon =>
      rcases x.abandon_cases with hsame | ⟨d, u, waiting, hdrain, habandon⟩
      · rw [step, hsame]
        exact hcomplete
      · rw [step, habandon, share_breakOff hdrain]
        exact hcomplete

theorem steady_move
    (h : x.now.Steady)
    (move : Move) :
    (x.step move).now.Steady := by
  cases move with
  | turn turn => exact h.step (Interleaving.taken_step _ _)
  | abandon =>
      rcases x.abandon_cases with hsame | ⟨d, u, waiting, hdrain, habandon⟩
      · rw [step, hsame]
        exact h
      · rw [step, habandon]
        cases d with
        | direct _ => exact ⟨⟨h.distinct, h.registered⟩, nofun⟩
        | poller _ => exact ⟨⟨h.distinct, h.registered⟩, nofun⟩

/-- A batch that was abandoned stays noted. -/
theorem prefix_abandonedOf_step
    (x : Trial) (move : Move) (t : Nat) :
    x.abandonedOf t <+: (x.step move).abandonedOf t := by
  cases move with
  | turn turn => exact List.prefix_rfl
  | abandon =>
      rcases x.abandon_cases with hsame | ⟨d, u, waiting, -, habandon⟩
      · have heq : (x.step .abandon).abandonedOf t = x.abandonedOf t := congrArg (·.abandonedOf t) hsame
        exact heq ▸ List.prefix_rfl
      · rw [step, habandon, abandonedOf_append]
        exact List.prefix_append _ _

theorem prefix_abandonedOf_run
    (x : Trial) (moves : List Move) (t : Nat) :
    x.abandonedOf t <+: (x.run moves).abandonedOf t := by
  induction moves generalizing x with
  | nil => exact List.prefix_rfl
  | cons move rest ih => exact (x.prefix_abandonedOf_step move t).trans (ih (x.step move))

/-- If nothing of a thread is abandoned in a run, nothing is in its first move and in the rest. -/
theorem abandonedOf_step_eq
    {move : Move} {rest : List Move}
    (hkept : (x.run (move :: rest)).abandonedOf t = x.abandonedOf t) :
    (x.step move).abandonedOf t = x.abandonedOf t ∧
      ((x.step move).run rest).abandonedOf t = (x.step move).abandonedOf t := by
  have hfirst := x.prefix_abandonedOf_step move t
  have hrest := (x.step move).prefix_abandonedOf_run rest t
  have hsame : (x.step move).abandonedOf t = x.abandonedOf t := by
    refine (hfirst.eq_of_length_le ?_).symm
    exact hkept ▸ hrest.length_le
  exact ⟨hsame, hkept.trans hsame.symm⟩

/-! ## Any moves -/

theorem steady_run
    (h : x.now.Steady)
    (moves : List Move) :
    (x.run moves).now.Steady := by
  induction moves generalizing x with
  | nil => exact h
  | cons move rest ih => exact ih (steady_move h move)

/-- **Nothing is lost**, and nothing is taken over twice, whatever is abandoned. -/
theorem complete_run
    (h : x.now.Steady)
    (hcomplete : (x.now.share t).Complete)
    (moves : List Move) :
    ((x.run moves).now.share t).Complete := by
  induction moves generalizing x with
  | nil => exact hcomplete
  | cons move rest ih => exact ih (steady_move h move) (complete_move h move hcomplete)

/-- **What there is of a thread** only grows at its end, from when nothing of it is left over and for as long
as none of its batches is abandoned. -/
theorem sequence_run
    (h : x.now.Steady)
    (htidy : (x.now.share t).Tidy)
    {moves : List Move}
    (hkept : (x.run moves).abandonedOf t = x.abandonedOf t) :
    ((x.run moves).now.share t).Tidy ∧
      ∃ new, (x.run moves).now.appended t = x.now.appended t ++ new ∧
        ((x.run moves).now.share t).sequence = (x.now.share t).sequence ++ new := by
  induction moves generalizing x with
  | nil => exact ⟨htidy, [], (List.append_nil _).symm, (List.append_nil _).symm⟩
  | cons move rest ih =>
      obtain ⟨hfirst, hrest⟩ := abandonedOf_step_eq hkept
      have hshift := shift_move h hfirst
      obtain ⟨new, happended, hsequence⟩ := hshift.sequence htidy
      have happended : (x.step move).now.appended t = x.now.appended t ++ new := happended
      obtain ⟨htidy', later, happended', hsequence'⟩ := ih (steady_move h move) (hshift.tidy htidy) hrest
      refine ⟨htidy', new ++ later, ?_, ?_⟩
      · rw [← List.append_assoc, ← happended]
        exact happended'
      · rw [← List.append_assoc, ← hsequence]
        exact hsequence'

/-- A thread that a drain has reached has an empty buffer, apart from what it appends later. -/
theorem buffered_of_reached
    (htidy : (x.now.share t).Tidy)
    (hawaits : ∀ d stage, x.now.drain = some (d, stage) → stage.Awaits t)
    {move : Move} {d : Drainer} {stage : Stage}
    (hdrain : (x.step move).now.drain = some (d, stage))
    (hreached : ¬ stage.Awaits t) :
    (x.step move).now.collector.buffered t = [] := by
  cases move with
  | turn turn =>
      exact Interleaving.buffered_of_reached htidy (Interleaving.taken_step _ _) hawaits hdrain hreached
  | abandon =>
      rcases x.abandon_cases with hsame | ⟨d', u, waiting, -, habandon⟩
      · rw [step, hsame] at hdrain
        exact absurd (hawaits d stage hdrain) hreached
      · rw [step, habandon] at hdrain
        cases d' <;> cases hdrain

/-- So much of a thread was swapped out or handed over, if the drain that goes on has reached it. -/
def Reached (x : Trial) (t n : Nat) : Prop :=
  ∀ d stage, x.now.drain = some (d, stage) → ¬ stage.Awaits t →
    n ≤ (x.now.handedOver t ++ x.now.out t).length

theorem reached_run
    {n : Nat}
    (h : x.now.Steady)
    (htidy : (x.now.share t).Tidy)
    (hn : n ≤ (x.now.share t).sequence.length)
    (hreached : x.Reached t n)
    {moves : List Move}
    (hkept : (x.run moves).abandonedOf t = x.abandonedOf t) :
    (x.run moves).Reached t n := by
  induction moves generalizing x with
  | nil => exact hreached
  | cons move rest ih =>
      obtain ⟨hfirst, hrest⟩ := abandonedOf_step_eq hkept
      have hshift := shift_move h hfirst
      obtain ⟨new, -, hsequence⟩ := hshift.sequence htidy
      have hn' : n ≤ ((x.step move).now.share t).sequence.length := by
        rw [hsequence, List.length_append]
        exact Nat.le_add_right_of_le hn
      refine ih (steady_move h move) (hshift.tidy htidy) hn' ?_ hrest
      intro d stage hdrain hnot
      by_cases hbefore : ∃ d stage, x.now.drain = some (d, stage) ∧ ¬ stage.Awaits t
      · obtain ⟨d', stage', hdrain', hnot'⟩ := hbefore
        exact Nat.le_trans (hreached d' stage' hdrain' hnot') (hshift.length_le htidy)
      · have hawaits : ∀ d stage, x.now.drain = some (d, stage) → stage.Awaits t := by
          intro d stage hstage
          by_contra hmissed
          exact hbefore ⟨d, stage, hstage, hmissed⟩
        have hbuffered := buffered_of_reached htidy hawaits hdrain hnot
        have hall : ((x.step move).now.share t).sequence =
            (x.step move).now.handedOver t ++ (x.step move).now.out t := by
          simp [Share.sequence, Interleaving.share, hbuffered]
        rwa [← hall]

/-- **What was appended before a drain** is handed over when the drain has visited all threads. -/
theorem handedOver_of_forgetting
    (h : x.now.Steady)
    (hout : x.now.out t = [])
    (hfree : x.now.drain = none)
    {moves : List Move}
    (hkept : (x.run moves).abandonedOf t = x.abandonedOf t)
    {d : Drainer} {waiting : List Nat}
    (hdrain : (x.run moves).now.drain = some (d, .forgetting waiting)) :
    x.now.handedOver t ++ x.now.collector.buffered t <+: (x.run moves).now.handedOver t := by
  have htidy : (x.now.share t).Tidy := .inr hout
  have hnothing : x.Reached t (x.now.share t).sequence.length := by
    intro d stage hsome
    rw [hfree] at hsome
    cases hsome
  have hreached := reached_run h htidy (Nat.le_refl _) hnothing hkept d _ hdrain not_false
  obtain ⟨-, new, -, hsequence⟩ := sequence_run h htidy hkept
  have hout' := (steady_run h moves).out_eq_nil hdrain t
  simp only [Share.sequence, Interleaving.share, hout, hout', List.append_nil] at hreached hsequence
  exact List.prefix_of_prefix_length_le (hsequence ▸ List.prefix_append _ new)
    (List.prefix_append _ _) hreached

/-! ## A drain without interruption -/

/-- An acceptor that notes what it is handed, and whether it comes back. -/
def trying (sink : Nat) (comesBack : Nat → List Event → Bool) :
    Collector.Acceptor (List Delivery × List Delivery) :=
  fun thread events noted =>
    if comesBack thread events then (true, noted.1 ++ [⟨sink, thread, events⟩], noted.2)
    else (false, noted.1, noted.2 ++ [⟨sink, thread, events⟩])

theorem run_turns
    (x : Trial) (turns : List Turn) (moves : List Move) :
    x.run (turns.map .turn ++ moves) = run { x with now := x.now.run turns } moves := by
  induction turns generalizing x with
  | nil => rfl
  | cons turn rest ih => exact ih (x.step (.turn turn))

section Uninterrupted

variable {s : Interleaving} {sink : Nat} {comesBack : Nat → List Event → Bool}
variable {c : Collector} {noted deliveries abandoned : List Delivery}

/-- Visiting threads one after the other, until an acceptor does not come back. -/
theorem run_swapping_abandoned
    (waiting : List Nat)
    (hdrain : s.drain = some (.direct sink, .swapping waiting))
    (h : Collector.drainThreads (trying sink comesBack) waiting s.collector (s.deliveries, noted) =
      (false, c, deliveries, abandoned)) :
    ∃ n, run ⟨s, noted⟩ ((List.replicate n Turn.goOn).map .turn ++ [.abandon]) =
      ⟨{ s with collector := c, deliveries, drain := none }, abandoned⟩ := by
  induction waiting generalizing s with
  | nil => cases h
  | cons t rest ih =>
      -- The thread's batch, if there is one, is taken over: the rest is visited after three steps.
      have hcomes : ∀ s' : Interleaving,
          (s.run (List.replicate 3 .goOn) = s') →
          s'.drain = some (.direct sink, .swapping rest) →
          Collector.drainThreads (trying sink comesBack) rest s'.collector (s'.deliveries, noted) =
            (false, c, deliveries, abandoned) →
          ∃ n, run ⟨s, noted⟩ ((List.replicate n Turn.goOn).map .turn ++ [.abandon]) =
            ⟨{ s' with collector := c, deliveries, drain := none }, abandoned⟩ := by
        rintro s' rfl hdrain' hrest
        obtain ⟨n, hn⟩ := ih hdrain' hrest
        refine ⟨3 + n, ?_⟩
        rw [run_turns] at hn ⊢
        rw [Interleaving.run_replicate_add]
        exact hn
      let s1 : Interleaving :=
        { s with collector := s.collector.swap t, drain := some (.direct sink, .handing t rest) }
      let s3 : Interleaving :=
        { s1 with
          collector := s1.collector.clear t
          deliveries := s1.deliver (.direct sink) t
          drain := some (.direct sink, .swapping rest) }
      have hone : s.step .goOn = s1 := Interleaving.step_goOn hdrain
      have hthree : s.run (List.replicate 3 .goOn) = s3 := by
        show ((s.step .goOn).step .goOn).step .goOn = s3
        rw [hone]
        rfl
      unfold Collector.drainThreads at h
      by_cases hempty : (s.collector.swap t).swappedOut t = []
      · refine hcomes s3 hthree rfl ?_
        simpa [hempty, s3, s1, Interleaving.deliver] using h
      · cases hback : comesBack t ((s.collector.swap t).swappedOut t) with
        | true =>
            refine hcomes s3 hthree rfl ?_
            simpa [hempty, trying, hback, s3, s1, Interleaving.deliver, Interleaving.sinkOf] using h
        | false =>
            simp only [hempty, trying, hback, if_false] at h
            cases h
            refine ⟨1, ?_⟩
            rw [run_turns]
            show abandon ⟨s.step .goOn, noted⟩ = _
            rw [hone]
            simp [abandon, s1, hempty, Interleaving.breakOff, Interleaving.sinkOf]

/-- **A drain whose acceptor does not come back**, taken without interruption, is `Collector.drain`. -/
theorem run_abandoned_drain
    {x : Trial}
    (hfree : x.now.drain = none)
    (h : x.now.collector.drain (trying sink comesBack) (x.now.deliveries, x.abandoned) =
      (false, c, deliveries, abandoned)) :
    ∃ n, x.run ((Turn.startDrain (.direct sink) :: List.replicate n Turn.goOn).map .turn ++ [.abandon]) =
      ⟨{ x.now with collector := c, deliveries }, abandoned⟩ := by
  let s2 : Interleaving := { x.now with drain := some (.direct sink, .swapping x.now.collector.threads) }
  have hvisit : Collector.drainThreads (trying sink comesBack) x.now.collector.threads s2.collector
      (s2.deliveries, x.abandoned) = (false, c, deliveries, abandoned) := by
    unfold Collector.drain at h
    split at h
    next hvisit =>
      cases h
      exact hvisit
    next => cases h
  obtain ⟨n, hn⟩ := run_swapping_abandoned (s := s2) x.now.collector.threads rfl hvisit
  refine ⟨1 + n, ?_⟩
  have hstart : (x.now.step (.startDrain (.direct sink))).step .goOn = s2 := by
    simp [Interleaving.step, hfree, Interleaving.mayDrain, Interleaving.stepDrain, s2]
  rw [run_turns] at hn ⊢
  have hturns : x.now.run (.startDrain (.direct sink) :: List.replicate (1 + n) .goOn) =
      s2.run (List.replicate n .goOn) := by
    show (x.now.step (.startDrain (.direct sink))).run _ = _
    rw [Interleaving.run_replicate_add]
    show ((x.now.step (.startDrain (.direct sink))).step .goOn).run _ = _
    rw [hstart]
  rw [hturns, hn, ← hfree]

end Uninterrupted

/-! ## What threads record -/

/-- The calls that a thread makes, in order. -/
def callsOf (t : Nat) : Trial → List Move → List Turn
  | _, [] => []
  | x, .turn turn :: rest => x.now.callsIn t turn ++ callsOf t (x.step (.turn turn)) rest
  | x, .abandon :: rest => callsOf t x.abandon rest

/-- A drain that ends early has no part in what threads record. -/
theorem follows_abandon
    {p : Solo}
    (h : x.now.Follows t p) :
    x.abandon.now.Follows t p := by
  rcases abandon_cases x with hsame | ⟨d, u, waiting, -, hx⟩
  · rw [hsame]
    exact h
  · rw [hx]
    cases d with
    | direct _ => exact h.of_recorders rfl rfl rfl
    | poller _ => exact h.of_recorders rfl rfl rfl

theorem follows_run
    {p : Solo}
    (h : x.now.Follows t p)
    (moves : List Move) :
    (x.run moves).now.Follows t (p.run (x.callsOf t moves)) := by
  induction moves generalizing x p with
  | nil => exact h
  | cons move rest ih =>
      cases move with
      | turn turn =>
          rw [callsOf, Solo.run_append]
          exact ih (h.step turn)
      | abandon =>
          exact ih (follows_abandon h)

/-! ## However many drains are abandoned -/

/-- **Drains that are abandoned**, in every order of moves.

What a thread appended, with what it has still to append, is what its calls record.  Every event is taken
over once, or is still out or in the buffer of its thread.  From a moment when nothing
of a thread is out, as at the start, and for as long as none of its batches is abandoned, its events are
handed over once and in order; and what it had appended at that moment, if no drain went on then, is handed
over when a later drain has visited all threads, whatever else was abandoned.  When a drain has visited all
threads, nothing of any is out.  A drain that goes on visits all threads if every acceptor comes back. -/
theorem handed_over_despite_abandonment
    (limit : Nat) (sinks : Nat → Nat) (moves : List Move) :
    let x := (start limit sinks).run moves
    (∀ t, x.now.appended t ++ x.now.collector.pendingOf t =
        (Solo.start.run ((start limit sinks).callsOf t moves)).recorded) ∧
      (∀ t, (x.now.handedOver t ++ x.now.out t ++ x.now.collector.buffered t).Perm (x.now.appended t)) ∧
      (∀ t later, x.now.out t = [] → (x.run later).abandonedOf t = x.abandonedOf t →
        (∃ new, (x.run later).now.appended t = x.now.appended t ++ new ∧
          (x.run later).now.handedOver t ++ (x.run later).now.undrained t =
            x.now.handedOver t ++ x.now.undrained t ++ new) ∧
        (x.now.drain = none → ∀ d waiting, (x.run later).now.drain = some (d, .forgetting waiting) →
          x.now.handedOver t ++ x.now.undrained t <+: (x.run later).now.handedOver t)) ∧
      (∀ d waiting, x.now.drain = some (d, .forgetting waiting) → ∀ t, x.now.out t = []) ∧
      (∀ d stage, x.now.drain = some (d, stage) → ∃ n waiting,
        (x.run (List.replicate n (.turn .goOn))).now.drain = some (d, .forgetting waiting)) := by
  intro x
  have hsteady : x.now.Steady := steady_run (Steady.start limit sinks) moves
  refine ⟨?_, ?_, ?_, ?_, ?_⟩
  · intro t
    exact (follows_run (Interleaving.follows_start limit sinks t) moves).recorded
  · intro t
    have hstart : ((start limit sinks).now.share t).Complete := List.Perm.refl []
    exact complete_run (Steady.start limit sinks) hstart moves
  · intro t later hout hkept
    have htidy : (x.now.share t).Tidy := .inr hout
    obtain ⟨htidy', new, happended, hsequence⟩ := sequence_run hsteady htidy hkept
    rw [Interleaving.sequence_share htidy, Interleaving.sequence_share htidy'] at hsequence
    refine ⟨⟨new, happended, hsequence⟩, ?_⟩
    intro hfree d waiting hdrain
    have hhanded := handedOver_of_forgetting hsteady hout hfree hkept hdrain
    have hinHand : x.now.inHand t = [] := by
      rw [Interleaving.inHand, hfree]
    rwa [Interleaving.undrained, hinHand, List.nil_append]
  · intro d waiting hdrain t
    exact hsteady.out_eq_nil hdrain t
  · intro d stage hdrain
    obtain ⟨n, waiting, hforgetting⟩ := Interleaving.exists_forgetting hdrain
    refine ⟨n, waiting, ?_⟩
    have hrun := run_turns x (List.replicate n .goOn) []
    rw [List.append_nil, List.map_replicate] at hrun
    rw [hrun]
    exact hforgetting

/-- An event that was appended before another one is handed over twice, and the second time after it. -/
theorem abandoned_batch_is_handed_over_again :
    let drain := (Turn.startDrain (.direct 0) :: List.replicate 7 Turn.goOn).map Move.turn
    let record := fun timestamp callee => [.track 0 ⟨timestamp, callee⟩, .append 0].map Move.turn
    let x := (start 0 fun _ => 0).run <|
      record 1 100 ++ drain.take 3 ++ [.abandon] ++ record 2 0 ++ drain ++ record 3 200 ++ drain
    x.now.drain = none ∧
      x.now.appended 0 = [⟨1, 100⟩, ⟨2, 0⟩, ⟨3, 200⟩] ∧
      x.abandoned = [⟨0, 0, [⟨1, 100⟩]⟩] ∧
      x.now.deliveries = [⟨0, 0, [⟨2, 0⟩]⟩, ⟨0, 0, [⟨1, 100⟩, ⟨3, 200⟩]⟩] := by
  decide

end Trial

end CallProfiler.Recording
