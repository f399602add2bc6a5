import CallProfiler.Proofs.Recording.Progress
import CallProfiler.Proofs.Replay.Accounting
import CallProfiler.Proofs.Replay.Threads

/-!
# Executions are rebuilt from what was recorded

In an execution calls are nested: a function makes calls, and then it returns or ends by calling another
function in its own stack slot, which returns in its place.  The recorder tells calls apart by their
slots alone, the replay by their order alone.  For an execution whose stack grows downwards both come to
the same calls, and a tail-called function is a sibling of the call that it ended.

**Main statements.**
* `Activity.played`: a thread by itself records the calls of its execution and returns to where they
  were made.
* `executions_are_rebuilt`: so it is with any drains and other threads in between, and replaying what
  was drained gives the call tree of the execution.
-/

namespace CallProfiler.Recording

open Profile (Event Call History)

/-- A function is entered. -/
structure Arrival where
  /-- The stack slot that holds the return address. -/
  slot : UInt64
  /-- What the slot holds at that moment. -/
  held : UInt64
  event : Profile.Enter

/-- The call that enters it. -/
def Arrival.turn (thread : Nat) (a : Arrival) : Turn :=
  .enter thread a.slot a.held a.event.1.timestamp a.event.1.callee

/-- An execution from entering a function to the return to its caller. -/
inductive Activity where
  /-- The function makes calls and returns. -/
  | returning (arrival : Arrival) (made : List Activity) (left : UInt64)
  /-- The function makes calls and ends by calling another one, which returns in its place. -/
  | tailCalling (arrival : Arrival) (made : List Activity) (next : Activity)

namespace Activity

def arrival : Activity → Arrival
  | .returning arrival _ _ => arrival
  | .tailCalling arrival _ _ => arrival

def slot (a : Activity) : UInt64 := a.arrival.slot

/-- The calls made have slots strictly below the caller's, and a tail call reuses the slot. -/
inductive WellNested : Activity → Prop
  | returning {arrival : Arrival} {made : List Activity} {left : UInt64} :
      (∀ c ∈ made, c.slot < arrival.slot) →
      (∀ c ∈ made, c.WellNested) →
      WellNested (.returning arrival made left)
  | tailCalling {arrival : Arrival} {made : List Activity} {next : Activity} :
      (∀ c ∈ made, c.slot < arrival.slot) →
      (∀ c ∈ made, c.WellNested) →
      next.slot = arrival.slot →
      next.WellNested →
      WellNested (.tailCalling arrival made next)

/-- What the thread calls the recorder for, in program order. -/
def turns (thread : Nat) : Activity → List Turn
  | .returning arrival made left =>
    arrival.turn thread :: (made.flatMap (turns thread) ++ [.exit thread arrival.slot left])
  | .tailCalling arrival made next =>
    arrival.turn thread :: (made.flatMap (turns thread) ++ next.turns thread)

/-- What each return goes back to, where `held` is what the slot held when the first call of the chain
of tail calls was entered. -/
def answersFrom (held : UInt64) : Activity → List UInt64
  | .returning _ made _ => made.flatMap (fun c => c.answersFrom c.arrival.held) ++ [held]
  | .tailCalling _ made next =>
    made.flatMap (fun c => c.answersFrom c.arrival.held) ++ next.answersFrom held

def answers (a : Activity) : List UInt64 := a.answersFrom a.arrival.held

/-- The calls; a tail-called function is a sibling that starts when the call before it ends. -/
def calls : Activity → List Call
  | .returning arrival made left => [.ended arrival.event left (made.flatMap calls)]
  | .tailCalling arrival made next =>
    .ended arrival.event next.arrival.event.1.timestamp (made.flatMap calls) :: next.calls

/-- What happened in a thread, one activity after the other. -/
def history (activities : List Activity) : History := ⟨(activities.flatMap calls).map .call, []⟩

/-! ## A thread by itself -/

/-- The events that are recorded for an activity. -/
def events (a : Activity) : List Event := a.calls.flatMap Call.events

/-- What follows when the first function is entered. -/
def later (thread : Nat) : Activity → List Turn
  | .returning arrival made left => made.flatMap (turns thread) ++ [.exit thread arrival.slot left]
  | .tailCalling _ made next => made.flatMap (turns thread) ++ next.turns thread

def laterEvents : Activity → List Event
  | .returning _ made left => made.flatMap events ++ [.exit left]
  | .tailCalling _ made next =>
    made.flatMap events ++ .exit next.arrival.event.1.timestamp :: next.events

theorem turns_eq
    (thread : Nat) (a : Activity) :
    a.turns thread = a.arrival.turn thread :: a.later thread := by
  cases a <;> simp [turns, later, arrival]

/-- The events of activities are those of their calls. -/
theorem flatMap_events
    (activities : List Activity) :
    activities.flatMap events = (activities.flatMap calls).flatMap Call.events := by
  rw [List.flatMap_assoc]
  rfl

theorem events_eq
    (a : Activity) :
    a.events = a.arrival.event.1 :: a.laterEvents := by
  cases a with
  | returning arrival made left =>
      simp [events, calls, Call.events, laterEvents, Activity.arrival, flatMap_events]
  | tailCalling arrival made next =>
      simp [events, calls, Call.events, laterEvents, Activity.arrival, flatMap_events]

theorem events_history
    (activities : List Activity) :
    (history activities).events = activities.flatMap events := by
  simp only [history, History.events, List.flatMap_map, List.reverse_nil, List.flatMap_nil,
    List.append_nil, flatMap_events]
  rfl

theorem answersFrom_returning
    (held : UInt64) (arrival : Arrival)
    (made : List Activity) (left : UInt64) :
    answersFrom held (.returning arrival made left) = made.flatMap answers ++ [held] := by
  rw [answersFrom]
  rfl

theorem answersFrom_tailCalling
    (held : UInt64) (arrival : Arrival)
    (made : List Activity) (next : Activity) :
    answersFrom held (.tailCalling arrival made next) =
      made.flatMap answers ++ next.answersFrom held := by
  rw [answersFrom]
  rfl

variable {thread : Nat}

/-- With a slot below those of the open calls, what follows the entry of an activity ends with these
calls open, and has recorded and answered what belongs to the activity. -/
def Plays (thread : Nat) (a : Activity) : Prop :=
  ∀ (held : UInt64) (below : ReturnStack) (recorded : List Event) (answers : List UInt64),
    a.slot < below.topSlot →
    Solo.run ⟨⟨a.slot, held⟩ :: below, recorded, answers⟩ (a.later thread) =
      ⟨below, recorded ++ a.laterEvents, answers ++ a.answersFrom held⟩

theorem Plays.run_turns
    {a : Activity}
    (h : a.Plays thread)
    {below : ReturnStack}
    (hslot : a.slot < below.topSlot)
    (recorded : List Event) (answers : List UInt64) :
    Solo.run ⟨below, recorded, answers⟩ (a.turns thread) =
      ⟨below, recorded ++ a.events, answers ++ a.answers⟩ := by
  have henter : Solo.step ⟨below, recorded, answers⟩ (a.arrival.turn thread) =
      ⟨⟨a.slot, a.arrival.held⟩ :: below, recorded ++ [a.arrival.event.1], answers⟩ := by
    have hne : ¬ below.topSlot = a.arrival.slot := (UInt64.ne_of_lt hslot).symm
    simp [Solo.step, Arrival.turn, ReturnStack.enter, hne, slot]
  rw [turns_eq, Solo.run, List.foldl_cons, henter]
  refine (h _ below _ _ hslot).trans ?_
  simp [events_eq, Activity.answers]

/-- Activities one after the other. -/
theorem run_flatMap_turns
    (below : ReturnStack)
    {activities : List Activity}
    (h : ∀ a ∈ activities, a.Plays thread)
    (hslot : ∀ a ∈ activities, a.slot < below.topSlot)
    (recorded : List Event) (answers : List UInt64) :
    Solo.run ⟨below, recorded, answers⟩ (activities.flatMap (turns thread)) =
      ⟨below, recorded ++ activities.flatMap events,
        answers ++ activities.flatMap Activity.answers⟩ := by
  induction activities generalizing recorded answers with
  | nil =>
      simp [Solo.run]
  | cons a rest ih =>
      have hrest := ih (fun c hc => h c (List.mem_cons_of_mem _ hc))
        fun c hc => hslot c (List.mem_cons_of_mem _ hc)
      rw [List.flatMap_cons, Solo.run_append,
        (h a List.mem_cons_self).run_turns (hslot a List.mem_cons_self), hrest]
      simp

/-- **What is entered is left.**  The induction is on the nesting: calls made lie on top of the caller,
and a tail call replaces the caller on the stack but not what its slot held. -/
theorem WellNested.plays
    {a : Activity}
    (h : a.WellNested) :
    a.Plays thread := by
  induction h with
  | @returning arrival made left hslots _ ih =>
      intro held below recorded answers hslot
      have hmade := run_flatMap_turns (⟨arrival.slot, held⟩ :: below) ih hslots recorded answers
      have hexit : ReturnStack.exit arrival.slot left (⟨arrival.slot, held⟩ :: below) =
          (below, [.exit left], held) := by
        rw [ReturnStack.exit, if_pos (.inr hslot)]
      rw [later, Solo.run_append]
      simp only [Activity.slot, Activity.arrival]
      rw [hmade, answersFrom_returning]
      simp [Solo.run, Solo.step, hexit, laterEvents]
  | @tailCalling arrival made next hslots _ hsame _ ih ihnext =>
      intro held below recorded answers hslot
      have hmade := run_flatMap_turns (⟨arrival.slot, held⟩ :: below) ih hslots recorded answers
      let recorded' := recorded ++ made.flatMap events
      let answers' := answers ++ made.flatMap Activity.answers
      have htail : Solo.step ⟨⟨arrival.slot, held⟩ :: below, recorded', answers'⟩
          (next.arrival.turn thread) =
          ⟨⟨next.slot, held⟩ :: below,
            recorded' ++ [.exit next.arrival.event.1.timestamp, next.arrival.event.1], answers'⟩ := by
        have htop : ReturnStack.topSlot (⟨arrival.slot, held⟩ :: below) = next.arrival.slot := hsame.symm
        rw [hsame]
        simp [Solo.step, Arrival.turn, ReturnStack.enter, htop]
      have hnext := ihnext held below
        (recorded' ++ [.exit next.arrival.event.1.timestamp, next.arrival.event.1]) answers'
        (hsame ▸ hslot)
      rw [later, Solo.run_append]
      simp only [Activity.slot, Activity.arrival]
      rw [hmade, turns_eq, Solo.run, List.foldl_cons, htail, answersFrom_tailCalling]
      refine hnext.trans ?_
      have hlater : laterEvents (.tailCalling arrival made next) =
          made.flatMap events ++
            .exit next.arrival.event.1.timestamp :: next.arrival.event.1 :: next.laterEvents := by
        rw [laterEvents, events_eq]
      simp [recorded', answers', hlater]

/-- The turns of an activity are calls of its thread. -/
theorem WellNested.caller?_of_mem
    {a : Activity}
    (h : a.WellNested)
    {turn : Turn}
    (hmem : turn ∈ a.turns thread) :
    turn.caller? = some thread := by
  induction h with
  | @returning arrival made left _ _ ih =>
      rw [turns, List.mem_cons, List.mem_append, List.mem_flatMap, List.mem_singleton] at hmem
      rcases hmem with rfl | ⟨c, hc, hmem⟩ | rfl
      · rfl
      · exact ih c hc hmem
      · rfl
  | @tailCalling arrival made next _ _ _ _ ih ihnext =>
      rw [turns, List.mem_cons, List.mem_append, List.mem_flatMap] at hmem
      rcases hmem with rfl | ⟨c, hc, hmem⟩ | hmem
      · rfl
      · exact ih c hc hmem
      · exact ihnext hmem

/-- **A thread by itself** records the calls of its execution, and every return goes back to where the
first call of its chain was made. -/
theorem played
    {activities : List Activity}
    (h : ∀ a ∈ activities, a.WellNested ∧ a.slot ≠ UInt64.ofNat (2 ^ 64 - 1)) :
    Solo.start.run (activities.flatMap (turns thread)) =
      ⟨[], (history activities).events, activities.flatMap answers⟩ := by
  have hslot : ∀ a ∈ activities, a.slot < ReturnStack.topSlot [] := by
    intro a ha
    have hne : a.slot ≠ ReturnStack.topSlot [] := (h a ha).2
    have hle : a.slot ≤ ReturnStack.topSlot [] := by
      have hlt := a.slot.toNat_lt
      rw [UInt64.le_iff_toNat_le]
      exact Nat.le_of_lt_succ hlt
    exact UInt64.lt_of_le_of_ne hle hne
  refine (run_flatMap_turns [] (fun a ha => (h a ha).1.plays) hslot [] []).trans ?_
  rw [events_history]
  rfl

end Activity

/-! ## A thread among others -/

namespace Interleaving

/-- What was handed over as a trace, when threads are given names. -/
def trace (s : Interleaving) (name : Nat → UInt64) : Profile.Trace :=
  ⟨s.deliveries.map fun d => ⟨name d.thread, d.events⟩⟩

theorem flatten_batchesOf_trace
    {s : Interleaving} {name : Nat → UInt64} {thread : Nat}
    (h : ∀ d ∈ s.deliveries, name d.thread = name thread → d.thread = thread) :
    ((s.trace name).batchesOf (name thread)).flatten = s.handedOver thread := by
  unfold trace Profile.Trace.batchesOf handedOver
  rw [List.filter_map, List.map_map, List.flatMap_def]
  refine congrArg (fun l => (l.map Delivery.events).flatten) (List.filter_congr ?_)
  intro d hd
  by_cases hthread : d.thread = thread
  · simp [hthread]
  · have hname : name d.thread ≠ name thread := fun heq => hthread (h d hd heq)
    simp [hthread, hname]

/-- **Executions are rebuilt.**  The calls that a thread makes of the recorder are those of a well-nested
execution, in program order, while drains, pollers and other threads take their steps in any order; with
any limit there is such an order that drains all of it.  However that is done, every exit gives the
return address that the slot held when the first call of its chain of tail calls was entered, and what
is recorded are the calls of the execution.  Once all of it is drained, analysing what was handed over,
with no overhead, leaves no call open, and the call tree of the thread is that of the execution: nodes
at exactly its paths, with the statistics of its calls as they are held, which are the plain sums where
no number leaves its bounds. -/
theorem executions_are_rebuilt
    (limit : Nat) (sinks : Nat → Nat) (thread : Nat)
    (activities : List Activity)
    (hnested : ∀ a ∈ activities, a.WellNested ∧ a.slot ≠ UInt64.ofNat (2 ^ 64 - 1)) :
    let s₀ := start limit sinks
    let program := activities.flatMap (Activity.turns thread)
    let h := Activity.history activities
    (∃ turns, s₀.callsOf thread turns = program ∧
      (s₀.run turns).undrained thread ++ (s₀.run turns).collector.pendingOf thread = []) ∧
    ∀ turns, s₀.callsOf thread turns = program →
      let s := s₀.run turns
      s₀.answersOf thread turns = activities.flatMap Activity.answers ∧
      s.handedOver thread ++ s.undrained thread ++ s.collector.pendingOf thread = h.events ∧
      ∀ name : Nat → UInt64,
        (∀ d ∈ s.deliveries, name d.thread = name thread → d.thread = thread) →
        s.undrained thread ++ s.collector.pendingOf thread = [] →
        let profile := ((s.trace name).replay (.empty .zero)).profile (name thread)
        profile.stack.frames = [] ∧
          (∀ path, (profile.tree.find? path).map (·.statistics) =
            if path ∈ h.paths then some (Profile.summarize .zero (h.callsAt path)) else none) ∧
          (∀ path ∈ h.paths, Profile.WithinBounds .zero (h.callsAt path) →
            (profile.tree.find? path).map (·.statistics) =
              some (Profile.tally .zero (h.callsAt path))) ∧
          ∀ id, id < profile.tree.size → ∃ path ∈ h.paths, profile.tree.follow? none path = some id := by
  intro s₀ program h
  have hcallers : ∀ turn ∈ program, turn.caller? = some thread := by
    intro turn hturn
    obtain ⟨a, ha, hmem⟩ := List.mem_flatMap.1 hturn
    exact (hnested a ha).1.caller?_of_mem hmem
  refine ⟨exists_turns limit sinks thread hcallers, ?_⟩
  intro turns hprogram s
  obtain ⟨hrecorded, hanswers⟩ := follows_run limit sinks turns thread
  have hsound : Sound limit s := (Sound.start limit sinks).run turns
  rw [hprogram, Activity.played hnested] at hrecorded hanswers
  have hall : s.handedOver thread ++ s.undrained thread ++ s.collector.pendingOf thread = h.events := by
    rw [hsound.conserved thread]
    exact hrecorded
  refine ⟨hanswers, hall, ?_⟩
  intro name hname hdrained profile
  have hevents : ((s.trace name).batchesOf (name thread)).flatten = h.events := by
    rw [flatten_batchesOf_trace hname, ← hall, List.append_assoc, hdrained, List.append_nil]
  have hprofile : profile = Profile.ThreadProfile.replay ⟨.empty .zero, .empty⟩ h.events := by
    rw [← hevents]
    exact (s.trace name).profile_replay_empty .zero (name thread)
  have hacc : profile.stack.Accounts profile.tree .zero h := by
    rw [hprofile, ← History.ofEvents_events h, History.events_ofEvents]
    exact Profile.CallStack.accounts_update_empty .zero _
  refine ⟨hacc.frames.eq_nil, hacc.statistics, ?_, fun _ hid => hacc.exists_path hid⟩
  intro path hpath hbounds
  exact hacc.statistics_eq_tally hpath hbounds

/-- A chain of two tail calls in nested calls; the buffer takes three events, so that a drain comes
between the two events of the second call of the chain, and another thread records too. -/
theorem executions_are_rebuilt_tail_call :
    let leaf : Activity := .returning ⟨80, 4000, ⟨⟨31, 9⟩, rfl⟩⟩ [] 35
    let second : Activity := .returning ⟨90, 3000, ⟨⟨30, 8⟩, rfl⟩⟩ [leaf] 40
    let first : Activity := .tailCalling ⟨90, 2000, ⟨⟨20, 6⟩, rfl⟩⟩ [] second
    let outer : Activity := .returning ⟨100, 1000, ⟨⟨10, 5⟩, rfl⟩⟩ [first] 50
    let drain : List Turn := .startDrain (.direct 0) :: List.replicate 12 .goOn
    let before : List Turn :=
      [.enter 7 100 1000 10 5, .append 7, .enter 7 90 2000 20 6, .append 7, .enter 3 60 70 25 5,
        .enter 7 90 3000 30 8, .append 7, .append 7]
    let between : List Turn :=
      [.append 7, .enter 7 80 4000 31 9, .append 3, .append 7, .exit 7 80 35, .append 7]
    let after : List Turn := [.exit 7 90 40, .append 7, .exit 7 100 50, .append 7]
    let turns := before ++ drain ++ between ++ drain ++ after ++ drain
    let s := (start 3 id).run turns
    let profile := ((s.trace UInt64.ofNat).replay (.empty .zero)).profile (UInt64.ofNat 7)
    (∀ a ∈ [outer], a.WellNested ∧ a.slot ≠ UInt64.ofNat (2 ^ 64 - 1)) ∧
      (start 3 id).callsOf 7 turns = [outer].flatMap (Activity.turns 7) ∧
      s.deliveries.map (fun d => (d.thread, d.events.length)) = [(7, 3), (7, 3), (3, 1), (7, 2)] ∧
      (start 3 id).answersOf 7 turns = [4000, 2000, 1000] ∧
      profile.stack.frames = [] ∧
      Profile.summarize .zero ((Activity.history [outer]).callsAt [5, 8]) = ⟨1, 0, 10, 6, 10⟩ := by
  intro leaf second first outer drain before between after turns s profile
  have hleaf : leaf.WellNested := .returning (by simp) (by simp)
  have hsecond : second.WellNested := by
    refine .returning ?_ ?_
    · simp [leaf, Activity.slot, Activity.arrival]
    · simpa using hleaf
  have hfirst : first.WellNested := .tailCalling (by simp) (by simp) rfl hsecond
  have houter : outer.WellNested := by
    refine .returning ?_ ?_
    · simp [first, Activity.slot, Activity.arrival]
    · simpa using hfirst
  have hnested : ∀ a ∈ [outer], a.WellNested ∧ a.slot ≠ UInt64.ofNat (2 ^ 64 - 1) := by
    intro a ha
    rw [List.mem_singleton.1 ha]
    exact ⟨houter, by decide⟩
  have hprogram : (start 3 id).callsOf 7 turns = [outer].flatMap (Activity.turns 7) := by
    have hcalls : (start 3 id).callsOf 7 turns =
        [.enter 7 100 1000 10 5, .enter 7 90 2000 20 6, .enter 7 90 3000 30 8, .enter 7 80 4000 31 9,
          .exit 7 80 35, .exit 7 90 40, .exit 7 100 50] := by
      decide
    simp [hcalls, outer, first, second, leaf, Activity.turns, Arrival.turn]
  obtain ⟨hanswers, -, hrebuilt⟩ := (executions_are_rebuilt 3 id 7 [outer] hnested).2 turns hprogram
  obtain ⟨hclosed, hstatistics, -⟩ := hrebuilt UInt64.ofNat (by decide +kernel) (by decide +kernel)
  refine ⟨hnested, hprogram, by decide +kernel, ?_, by simp only [profile, s, hclosed], ?_⟩
  · rw [hanswers]
    simp [outer, first, second, leaf, Activity.answers, Activity.answersFrom, Activity.arrival]
  · have hfound : (profile.tree.find? [5, 8]).map (·.statistics) = some ⟨1, 0, 10, 6, 10⟩ := by
      decide +kernel
    simp only [profile, s, hstatistics] at hfound
    split at hfound
    · exact Option.some.inj hfound
    · cases hfound

end Interleaving

end CallProfiler.Recording
