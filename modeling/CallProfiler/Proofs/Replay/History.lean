import CallProfiler.Profile.Record

/-!
# Histories of calls

The events of a thread form calls: an exit ends the innermost call that is open, and an exit with no
call open ends nothing.  A history is the same information as the events, arranged by calls: the
completed calls with the calls made in them, then the calls still open.

**Main statements.**
* `History.events_ofEvents`: no event is lost when events are arranged.
* `History.ofEvents_events`: only one history has the given events.
-/

namespace CallProfiler.Profile

/-- An event that enters a function. -/
abbrev Enter := { e : Event // e.isExit = false }

/-- A completed call: how it was entered, when it was left, and the calls it made itself, in order. -/
inductive Call where
  | ended (entered : Enter) (left : UInt64) (made : List Call)

/-- An open call, with the completed calls that it made itself. -/
structure OngoingCall where
  entered : Enter
  made : List Call

/-- What happens while no call is open: a call with everything in it, or an exit that ends nothing. -/
inductive Episode where
  | call (call : Call)
  | stray (timestamp : UInt64)

/-- Events arranged by calls.  The open calls follow what happened before them; the innermost open
call stands first. -/
structure History where
  past : List Episode
  ongoing : List OngoingCall

/-! ## Events of a history -/

/-- The events from entering a call to leaving it. -/
def Call.events : Call → List Event
  | .ended entered left made => entered.1 :: (made.flatMap Call.events ++ [.exit left])

def Episode.events : Episode → List Event
  | .call c => c.events
  | .stray timestamp => [.exit timestamp]

def OngoingCall.events (c : OngoingCall) : List Event := c.entered.1 :: c.made.flatMap Call.events

namespace History

def events (h : History) : List Event :=
  h.past.flatMap Episode.events ++ h.ongoing.reverse.flatMap OngoingCall.events

/-- Nothing has happened. -/
def empty : History := ⟨[], []⟩

/-! ## Arranging events -/

/-- A call is entered. -/
def enter (h : History) (entered : Enter) : History :=
  { h with ongoing := ⟨entered, []⟩ :: h.ongoing }

/-- The innermost open call is left. -/
def leave (h : History) (timestamp : UInt64) : History :=
  match h.ongoing with
  | [] => { h with past := h.past ++ [.stray timestamp] }
  | [c] => ⟨h.past ++ [.call (.ended c.entered timestamp c.made)], []⟩
  | c :: caller :: rest =>
    { h with ongoing := { caller with made := caller.made ++ [.ended c.entered timestamp c.made] } :: rest }

def step (h : History) (e : Event) : History :=
  if isExit : e.isExit then h.leave e.timestamp
  else h.enter ⟨e, by simpa using isExit⟩

/-- The history that events make. -/
def ofEvents (events : List Event) : History := events.foldl step empty

/-! ## The arrangement keeps the events and is the only one -/

theorem events_enter
    (h : History) (entered : Enter) :
    (h.enter entered).events = h.events ++ [entered.1] := by
  simp [events, enter, OngoingCall.events]

theorem events_leave
    (h : History) (timestamp : UInt64) :
    (h.leave timestamp).events = h.events ++ [.exit timestamp] := by
  obtain ⟨past, ongoing⟩ := h
  match ongoing with
  | [] =>
      simp [events, leave, Episode.events]
  | [c] =>
      simp [events, leave, Episode.events, OngoingCall.events, Call.events]
  | c :: caller :: rest =>
      simp [events, leave, OngoingCall.events, Call.events]

/-- An exit is known by its timestamp. -/
theorem eq_exit
    {e : Event}
    (h : e.isExit = true) :
    e = .exit e.timestamp := by
  obtain ⟨timestamp, callee⟩ := e
  have hcallee : callee = 0 := by
    simpa [Event.isExit] using h
  simp [Event.exit, hcallee]

theorem events_step
    (h : History) (e : Event) :
    (h.step e).events = h.events ++ [e] := by
  unfold step
  split
  next hexit =>
    rw [events_leave, ← eq_exit hexit]
  next =>
    rw [events_enter]

/-- **No event is lost** when events are arranged by calls. -/
theorem events_ofEvents
    (es : List Event) :
    (ofEvents es).events = es := by
  have hfold : ∀ (h : History), (es.foldl step h).events = h.events ++ es := by
    induction es with
    | nil =>
        intro h
        simp
    | cons e rest ih =>
        intro h
        rw [List.foldl_cons, ih, events_step]
        simp
  rw [ofEvents, hfold]
  rfl

theorem step_enter
    (h : History) (entered : Enter) :
    h.step entered.1 = h.enter entered := by
  simp [step, entered.2]

theorem step_exit
    (h : History) (timestamp : UInt64) :
    h.step (.exit timestamp) = h.leave timestamp := by
  simp [step, Event.exit, Event.isExit]

/-- The events of a call, read while another call is open, add it to the calls that one made. -/
def ReadsBack (c : Call) : Prop :=
  ∀ (past : List Episode) (caller : OngoingCall) (below : List OngoingCall),
    c.events.foldl step ⟨past, caller :: below⟩ =
      ⟨past, { caller with made := caller.made ++ [c] } :: below⟩

theorem foldl_step_of_readsBack
    {calls : List Call}
    (hcalls : ∀ c ∈ calls, ReadsBack c)
    (past : List Episode) (caller : OngoingCall)
    (below : List OngoingCall) :
    (calls.flatMap Call.events).foldl step ⟨past, caller :: below⟩ =
      ⟨past, { caller with made := caller.made ++ calls } :: below⟩ := by
  induction calls generalizing caller with
  | nil =>
      simp
  | cons c rest ih =>
      have hc := hcalls c (by simp)
      have hrest : ∀ d ∈ rest, ReadsBack d := by
        intro d hd
        exact hcalls d (by simp [hd])
      rw [List.flatMap_cons, List.foldl_append, hc, ih hrest]
      simp

theorem readsBack
    (c : Call) :
    ReadsBack c := by
  obtain ⟨entered, left, made⟩ := c
  intro past caller below
  have hmade : ∀ d ∈ made, ReadsBack d := by
    intro d hd
    exact readsBack d
  rw [Call.events, List.foldl_cons, step_enter, List.foldl_append, enter,
    foldl_step_of_readsBack hmade]
  simp [step_exit, leave]
termination_by sizeOf c
decreasing_by
  have hlt := List.sizeOf_lt_of_mem hd
  simp_all
  omega

theorem foldl_step_calls
    (calls : List Call)
    (past : List Episode) (caller : OngoingCall)
    (below : List OngoingCall) :
    (calls.flatMap Call.events).foldl step ⟨past, caller :: below⟩ =
      ⟨past, { caller with made := caller.made ++ calls } :: below⟩ := by
  apply foldl_step_of_readsBack
  intro c _
  exact readsBack c

/-- The events of an episode, read while no call is open, add it to the past. -/
theorem foldl_step_episode
    (episode : Episode)
    (past : List Episode) :
    episode.events.foldl step ⟨past, []⟩ = ⟨past ++ [episode], []⟩ := by
  cases episode with
  | stray timestamp =>
      simp [Episode.events, step_exit, leave]
  | call c =>
      obtain ⟨entered, left, made⟩ := c
      rw [Episode.events, Call.events, List.foldl_cons, step_enter, List.foldl_append, enter,
        foldl_step_calls]
      simp [step_exit, leave]

theorem foldl_step_past
    (episodes past : List Episode) :
    (episodes.flatMap Episode.events).foldl step ⟨past, []⟩ = ⟨past ++ episodes, []⟩ := by
  induction episodes generalizing past with
  | nil =>
      simp
  | cons episode rest ih =>
      rw [List.flatMap_cons, List.foldl_append, foldl_step_episode, ih]
      simp

/-- The events of open calls, the outermost first, put them on top of those open before. -/
theorem foldl_step_ongoing
    (calls : List OngoingCall)
    (past : List Episode) (below : List OngoingCall) :
    (calls.flatMap OngoingCall.events).foldl step ⟨past, below⟩ =
      ⟨past, calls.reverse ++ below⟩ := by
  induction calls generalizing below with
  | nil =>
      simp
  | cons c rest ih =>
      rw [List.flatMap_cons, List.foldl_append, OngoingCall.events, List.foldl_cons, step_enter,
        enter, foldl_step_calls, ih]
      simp

/-- **Only one history has the given events**: reading its events gives it back. -/
theorem ofEvents_events
    (h : History) :
    ofEvents h.events = h := by
  rw [ofEvents, events, List.foldl_append, empty, foldl_step_past, foldl_step_ongoing]
  simp

end History

end CallProfiler.Profile
