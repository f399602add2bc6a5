import CallProfiler.Proofs.Recording.Progress
import CallProfiler.Proofs.Recording.Returns
import CallProfiler.Proofs.Replay.Batches
import CallProfiler.Proofs.Replay.History

/-!
# Two stacks of one height

The recorder keeps the open calls by their slots, the replay by the order of events.  Whatever the slots
are, also when calls are not nested or follow each other in their slots, the two have the same number
of open calls after every call of the recorder.

**Main statements.**
* `depth_update`: the depth of a replay is the number of calls that its events leave open.
* `Level.step`: a call of the recorder keeps the stacks at one height, and records no exit too many.
* `stacks_keep_height`: so it is after any calls, with any drains and other threads in between.
-/

namespace CallProfiler.Profile

/-! ## Open calls in a history and in a replay -/

namespace History

variable {h : History}

/-- Every exit ended a call. -/
def Matched (h : History) : Prop := ∀ episode ∈ h.past, ∃ call, episode = .call call

/-- The number of open calls. -/
def height (h : History) : Nat := h.ongoing.length

theorem Matched.enter
    (hmatched : h.Matched)
    (entered : Enter) :
    (h.enter entered).Matched ∧ (h.enter entered).height = h.height + 1 :=
  ⟨hmatched, rfl⟩

theorem height_leave
    (h : History) (timestamp : UInt64) :
    (h.leave timestamp).height = h.height - 1 := by
  obtain ⟨past, ongoing⟩ := h
  match ongoing with
  | [] | [_] | _ :: _ :: _ => rfl

/-- Leaving while a call is open ends a call. -/
theorem Matched.leave
    (hmatched : h.Matched)
    (hopen : 0 < h.height)
    (timestamp : UInt64) :
    (h.leave timestamp).Matched := by
  obtain ⟨past, ongoing⟩ := h
  match ongoing with
  | [] =>
      exact absurd hopen (Nat.lt_irrefl 0)
  | [c] =>
      intro episode hmem
      rcases List.mem_append.1 hmem with hold | hnew
      · exact hmatched episode hold
      · exact ⟨_, List.mem_singleton.1 hnew⟩
  | _ :: _ :: _ =>
      exact hmatched

/-- Leaving no more often than there are open calls. -/
theorem Matched.leaves
    (hmatched : h.Matched)
    {count : Nat}
    (hopen : count ≤ h.height)
    (timestamp : UInt64) :
    ((List.replicate count (.exit timestamp)).foldl step h).Matched ∧
      ((List.replicate count (.exit timestamp)).foldl step h).height = h.height - count := by
  induction count generalizing h with
  | zero =>
      exact ⟨hmatched, rfl⟩
  | succ count ih =>
      have hleft := h.height_leave timestamp
      rw [List.replicate_succ, List.foldl_cons, step_exit]
      obtain ⟨hrest, hheight⟩ := ih (hmatched.leave (by omega) timestamp) (by omega)
      exact ⟨hrest, by omega⟩

end History

namespace CallStack

theorem length_restoreFrames
    (t : CallTree) (frames : List Frame) :
    (restoreFrames t frames).1.length = frames.length := by
  induction frames with
  | nil =>
      rfl
  | cons f outer ih =>
      simp only [restoreFrames, List.length_cons, ih]

/-- An event changes the depth as it changes the number of open calls. -/
theorem depth_step
    {s : CallStack} {h : History}
    (heq : s.depth = h.height)
    (t : CallTree) (e : Event) :
    (s.step t e).1.depth = (h.step e).height := by
  unfold step History.step
  by_cases hexit : e.isExit
  · rw [if_pos hexit, dif_pos hexit, History.height_leave, ← heq]
    obtain ⟨overhead, frames⟩ := s
    match frames with
    | [] | [_] | _ :: _ :: _ => rfl
  · rw [if_neg hexit, dif_neg hexit]
    exact congrArg (· + 1) heq

theorem depth_steps
    {s : CallStack} {h : History}
    (heq : s.depth = h.height)
    (t : CallTree) (events : List Event) :
    (s.steps t events).1.depth = (events.foldl History.step h).height := by
  induction events generalizing s t h with
  | nil =>
      exact heq
  | cons e rest ih =>
      exact ih (depth_step heq t e) _

/-- **The depth of a replay** is the number of calls that the events leave open, whatever tree they are
replayed onto. -/
theorem depth_update
    {s : CallStack} {h : History}
    (heq : s.depth = h.height)
    (t : CallTree) (events : List Event) :
    (s.update t events).1.depth = (events.foldl History.step h).height := by
  have hrestored : CallStack.depth ⟨s.overhead, (restoreFrames t s.frames).1⟩ = h.height :=
    (length_restoreFrames t s.frames).trans heq
  exact depth_steps hrestored _ events

theorem depth_updates
    {s : CallStack} {h : History}
    (heq : s.depth = h.height)
    (t : CallTree) (batches : List (List Event)) :
    (s.updates t batches).1.depth = (batches.flatten.foldl History.step h).height := by
  induction batches generalizing s t h with
  | nil =>
      exact heq
  | cons events rest ih =>
      rw [updates_cons, List.flatten_cons, List.foldl_append]
      exact ih (depth_update heq t events) _

end CallStack

end CallProfiler.Profile

namespace CallProfiler.Recording

open Profile (Event History CallStack)
open ReturnStack (sentinel grounded pop)

/-- A function other than none is entered, or left, and not at the slot of the sentinel. -/
def Turn.Ordinary : Turn → Prop
  | .enter _ slot _ _ callee => slot ≠ sentinel.slot ∧ callee ≠ 0
  | .exit _ slot _ => slot ≠ sentinel.slot
  | _ => False

instance (turn : Turn) : Decidable turn.Ordinary := by
  unfold Turn.Ordinary
  cases turn <;> infer_instance

/-- As many calls are open in the one as in the other, and every exit ended a call. -/
structure Level (s : ReturnStack) (h : History) : Prop where
  matched : h.Matched
  height : h.height = s.length

namespace Level

variable {s : ReturnStack} {h : History}

theorem start : Level [] .empty where
  matched := fun _ hmem => by cases hmem
  height := rfl

/-- **Entering** a function opens one more call; a tail call, which is told by the slot of the innermost
call, ends that call first. -/
theorem enter
    (hlevel : Level s h)
    {slot callee : UInt64}
    (hslot : slot ≠ sentinel.slot)
    (hcallee : callee ≠ 0)
    (returnAddress timestamp : UInt64) :
    Level (s.enter slot returnAddress timestamp callee).1
      ((s.enter slot returnAddress timestamp callee).2.foldl History.step h) := by
  let entered : Profile.Enter := ⟨⟨timestamp, callee⟩, by simpa [Event.isExit] using hcallee⟩
  unfold ReturnStack.enter
  by_cases htail : s.topSlot = slot
  · rw [if_pos htail]
    cases s with
    | nil =>
        exact absurd htail.symm hslot
    | cons c rest =>
        have hopen : 0 < h.height := by
          rw [hlevel.height]
          exact Nat.zero_lt_succ rest.length
        obtain ⟨hmatched, hheight⟩ := (hlevel.matched.leave hopen timestamp).enter entered
        rw [List.foldl_cons, List.foldl_cons, List.foldl_nil, History.step_exit,
          History.step_enter _ entered]
        refine ⟨hmatched, ?_⟩
        rw [hheight, h.height_leave, Nat.sub_add_cancel hopen, hlevel.height]
  · obtain ⟨hmatched, hheight⟩ := hlevel.matched.enter entered
    rw [if_neg htail, List.foldl_cons, List.foldl_nil, History.step_enter _ entered]
    refine ⟨hmatched, ?_⟩
    rw [hheight, hlevel.height]
    rfl

/-- **Leaving** records an exit for every call that it closes, and closes no more than there are. -/
theorem exit
    (hlevel : Level s h)
    (slot timestamp : UInt64) :
    Level (ReturnStack.exit slot timestamp s).1
      ((ReturnStack.exit slot timestamp s).2.1.foldl History.step h) := by
  cases s with
  | nil =>
      exact hlevel
  | cons c rest =>
      have hlengths := congrArg List.length (ReturnStack.run_append_above slot rest)
      have hheight := hlevel.height
      rw [List.length_append] at hlengths
      rw [List.length_cons] at hheight
      rw [ReturnStack.exit_cons]
      have hclosed : (ReturnStack.run slot rest).length + 1 ≤ h.height := by
        omega
      obtain ⟨hmatched, hleft⟩ := hlevel.matched.leaves hclosed timestamp
      refine ⟨hmatched, hleft.trans ?_⟩
      show _ = (ReturnStack.above slot rest).length
      omega

end Level

/-- The recorder has the calls open that its events leave open. -/
def Solo.Level (p : Solo) : Prop := Recording.Level p.returns (History.ofEvents p.recorded)

namespace Solo.Level

variable {p : Solo}

theorem start : Solo.start.Level :=
  Recording.Level.start

/-- **A call of the recorder** keeps the stacks at one height. -/
theorem step
    (h : p.Level)
    {turn : Turn}
    (hordinary : turn.Ordinary) :
    (p.step turn).Level := by
  unfold Solo.Level History.ofEvents at h ⊢
  cases turn with
  | enter thread slot returnAddress timestamp callee =>
      have hstep := h.enter hordinary.1 hordinary.2 returnAddress timestamp
      rw [← List.foldl_append] at hstep
      exact hstep
  | exit thread slot timestamp =>
      have hstep := h.exit slot timestamp
      rw [← List.foldl_append] at hstep
      exact hstep
  | track _ _ | append _ | leave _ | startDrain _ | goOn | tick _ | requestStop _ | seeStop _ =>
      exact absurd hordinary id

/-- Calls one after the other. -/
theorem run
    (h : p.Level)
    {turns : List Turn}
    (hordinary : ∀ turn ∈ turns, turn.Ordinary) :
    (p.run turns).Level := by
  induction turns generalizing p with
  | nil =>
      exact h
  | cons turn rest ih =>
      exact ih (h.step (hordinary turn List.mem_cons_self))
        fun turn' hmem => hordinary turn' (List.mem_cons_of_mem _ hmem)

end Solo.Level

/-- What an exit does to its thread. -/
theorem Collector.exit_eq
    (c : Collector) (thread : Nat) (slot timestamp : UInt64) :
    let closed := ReturnStack.exit slot timestamp (c.returnsOf thread)
    (c.exit thread slot timestamp).1 = closed.2.2 ∧
      (c.exit thread slot timestamp).2.returnsOf thread = closed.1 ∧
      (c.exit thread slot timestamp).2.pendingOf thread = c.pendingOf thread ++ closed.2.1 := by
  intro closed
  let turn : Turn := .exit thread slot timestamp
  have hcaller : turn.caller? = some thread := rfl
  obtain ⟨hreturns, events, hpending, hrecorded⟩ :=
    c.calling_solo hcaller (p := ⟨c.returnsOf thread, [], []⟩) rfl
  have hevents : closed.2.1 = events := hrecorded
  exact ⟨rfl, hreturns, hevents ▸ hpending⟩

namespace Interleaving

/-- The batches that were handed over of a thread, in order. -/
def batches (s : Interleaving) (thread : Nat) : List (List Event) :=
  (s.deliveries.filter (·.thread = thread)).map (·.events)

theorem flatten_batches
    (s : Interleaving) (thread : Nat) :
    (s.batches thread).flatten = s.handedOver thread := by
  rw [handedOver, List.flatMap_def]
  rfl

/-- **The stacks keep one height.**  A thread enters and leaves functions at any slots but the sentinel's,
in any order, while drains, pollers and other threads take their steps; there is such an order for any
calls and any limit.  However that is done, no exit is recorded without a call to end.  As long as the
thread has not ended, the calls that its events leave open are as many as those above the sentinel on
its return stack, and so is the depth of a replay that was fed what was drained, in its batches, and
what was not drained yet.  And whatever slot the thread leaves next, popping entries until the top one
lies above that slot is what the exit does: the sentinel is below what is left, and with no call open
nothing is recorded and the return address is zero. -/
theorem stacks_keep_height
    (limit : Nat) (sinks : Nat → Nat) (thread : Nat)
    {calls : List Turn}
    (hordinary : ∀ turn ∈ calls, turn.caller? = some thread ∧ turn.Ordinary) :
    (∃ turns, (start limit sinks).callsOf thread turns = calls) ∧
    ∀ turns, (start limit sinks).callsOf thread turns = calls →
      let s := (start limit sinks).run turns
      let waiting := s.undrained thread ++ s.collector.pendingOf thread
      let h := History.ofEvents (s.handedOver thread ++ waiting)
      h.Matched ∧
      (thread ∉ s.ended →
        let returns := s.collector.returnsOf thread
        h.height = returns.length ∧
        (∀ o t,
          let fed := (CallStack.empty o).updates t (s.batches thread)
          (fed.1.update fed.2 waiting).1.depth = returns.length ∧
            (waiting = [] → fed.1.depth = returns.length)) ∧
        ∀ slot timestamp, slot ≠ sentinel.slot →
          let left := s.collector.exit thread slot timestamp
          let after := (left.2.returnsOf thread).grounded
          ∃ events,
            pop slot timestamp 0 returns.grounded = (after, events, left.1) ∧
            left.2.pendingOf thread = s.collector.pendingOf thread ++ events ∧
            (∀ entry ∈ after.head?, slot < entry.slot) ∧
            (returns = [] → left.1 = 0 ∧ events = [])) := by
  have hcallers : ∀ turn ∈ calls, turn.caller? = some thread := fun turn hmem => (hordinary turn hmem).1
  obtain ⟨turns₀, hturns₀, -⟩ := exists_turns limit sinks thread hcallers
  refine ⟨⟨turns₀, hturns₀⟩, ?_⟩
  intro turns hcalls s waiting h
  obtain ⟨hfollows, -⟩ := (follows_start limit sinks thread).run turns
  have hsound : Sound limit s := (Sound.start limit sinks).run turns
  rw [hcalls] at hfollows
  have hlevel : (Solo.start.run calls).Level :=
    Solo.Level.start.run fun turn hmem => (hordinary turn hmem).2
  have hall : s.handedOver thread ++ waiting = (Solo.start.run calls).recorded := by
    rw [← List.append_assoc, hsound.conserved thread]
    exact hfollows.recorded
  have hh : h = History.ofEvents (Solo.start.run calls).recorded := congrArg History.ofEvents hall
  refine ⟨hh ▸ hlevel.matched, ?_⟩
  intro hlive returns
  have hreturns : returns = (Solo.start.run calls).returns := hfollows.returns hlive
  have hheight : h.height = returns.length := by
    rw [hh, hreturns]
    exact hlevel.height
  refine ⟨hheight, ?_, ?_⟩
  · intro o t fed
    have hfed := CallStack.depth_updates (s := .empty o) (h := .empty) rfl t (s.batches thread)
    rw [flatten_batches] at hfed
    have hdepth : (fed.1.update fed.2 waiting).1.depth = returns.length := by
      rw [← hheight, CallStack.depth_update hfed fed.2 waiting, ← List.foldl_append]
      rfl
    refine ⟨hdepth, ?_⟩
    intro hnothing
    rw [hnothing, CallStack.depth_update hfed fed.2 []] at hdepth
    exact hfed.trans hdepth
  · intro slot timestamp hslot left after
    obtain ⟨hanswer, hleft, hpending⟩ := s.collector.exit_eq thread slot timestamp
    refine ⟨(ReturnStack.exit slot timestamp returns).2.1, ?_, hpending, ?_, ?_⟩
    · rw [ReturnStack.pop_grounded, hanswer]
      simp only [after, left, hleft]
      rfl
    · intro entry hentry
      have htop := ReturnStack.topSlot_eq (left.2.returnsOf thread)
      have habove := ReturnStack.slot_lt_topSlot_exit hslot timestamp returns
      rw [Option.mem_def.1 hentry, Option.map_some, Option.some.injEq, hleft] at htop
      rw [htop]
      exact habove
    · intro hnone
      refine ⟨?_, ?_⟩
      · rw [hanswer]
        show (ReturnStack.exit slot timestamp returns).2.2 = 0
        rw [hnone]
        rfl
      · rw [hnone]
        rfl

/-- Slots in no order: a call above its caller, one below a call that it leaves behind, a tail call, an
exit that closes two calls and one that finds no call open; a drain comes between two calls. -/
theorem stacks_keep_height_unordered :
    let calls : List Turn :=
      [.enter 7 50 1000 10 5, .enter 7 90 2000 20 6, .enter 7 40 3000 30 8, .enter 7 40 4000 31 9,
        .exit 7 60 35, .exit 7 95 40, .exit 7 20 45, .enter 7 70 5000 50 4]
    let drain : List Turn := .startDrain (.direct 0) :: List.replicate 6 .goOn
    let turns : List Turn :=
      [.enter 7 50 1000 10 5, .append 7, .enter 7 90 2000 20 6, .append 7, .enter 7 40 3000 30 8,
        .append 7] ++ drain ++
      [.enter 7 40 4000 31 9, .append 7, .append 7, .exit 7 60 35, .append 7, .exit 7 95 40, .append 7,
        .append 7, .exit 7 20 45, .enter 7 70 5000 50 4]
    let s := (start 0 id).run turns
    let waiting := s.undrained 7 ++ s.collector.pendingOf 7
    (∀ turn ∈ calls, turn.caller? = some 7 ∧ turn.Ordinary) ∧
      (start 0 id).callsOf 7 turns = calls ∧ 7 ∉ s.ended ∧
      (s.batches 7).map (·.length) = [3] ∧ waiting.map (·.callee) = [0, 9, 0, 0, 0, 4] ∧
      (s.collector.returnsOf 7).length = 1 ∧
      (History.ofEvents (s.handedOver 7 ++ waiting)).height = 1 := by
  intro calls drain turns s waiting
  have hordinary : ∀ turn ∈ calls, turn.caller? = some 7 ∧ turn.Ordinary := by decide
  have hcalls : (start 0 id).callsOf 7 turns = calls := by decide +kernel
  have hlive : 7 ∉ s.ended := by decide +kernel
  obtain ⟨-, hlevel⟩ := (stacks_keep_height 0 id 7 hordinary).2 turns hcalls
  obtain ⟨hheight, -, -⟩ := hlevel hlive
  have hone : (s.collector.returnsOf 7).length = 1 := by decide +kernel
  exact ⟨hordinary, hcalls, hlive, by decide +kernel, by decide +kernel, hone, hheight.trans hone⟩

end Interleaving

end CallProfiler.Recording
