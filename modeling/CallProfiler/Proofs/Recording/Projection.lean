import CallProfiler.Proofs.Recording.Buffers

/-!
# What one thread does among others

Drains, pollers and other threads decide when a thread can go on, but not what it records or what it
is answered: that follows from its own calls, in order.  `Solo` is a thread by itself, without buffers,
drains or other threads; an interleaving agrees with it for each thread.

**Main statements.**
* `Follows.step`: a step of an interleaving is, for each thread, one of its calls or nothing.
* `follows_run`: a thread records and is answered what it would be by itself.
-/

namespace CallProfiler.Recording

open Profile (Event)

/-- The thread that makes a call, if the turn is one. -/
def Turn.caller? : Turn → Option Nat
  | .track t _ => some t
  | .enter t _ _ _ _ => some t
  | .exit t _ _ => some t
  | _ => none

/-- A thread by itself. -/
structure Solo where
  /-- Its open calls. -/
  returns : ReturnStack
  /-- The events of all its calls. -/
  recorded : List Event
  /-- The return addresses that its exits gave. -/
  answers : List UInt64

namespace Solo

/-- Nothing has happened. -/
def start : Solo := ⟨[], [], []⟩

def step (p : Solo) : Turn → Solo
  | .track _ e => { p with recorded := p.recorded ++ [e] }
  | .enter _ slot returnAddress timestamp callee =>
    let (returns, events) := p.returns.enter slot returnAddress timestamp callee
    { p with returns, recorded := p.recorded ++ events }
  | .exit _ slot timestamp =>
    let (returns, events, returnAddress) := ReturnStack.exit slot timestamp p.returns
    ⟨returns, p.recorded ++ events, p.answers ++ [returnAddress]⟩
  | _ => p

/-- Calls one after the other. -/
def run (p : Solo) (turns : List Turn) : Solo := turns.foldl step p

theorem run_append
    (p : Solo) (turns turns' : List Turn) :
    p.run (turns ++ turns') = (p.run turns).run turns' :=
  List.foldl_append

end Solo

/-! ## What a thread keeps for itself -/

namespace Collector

variable {c : Collector} {t u : Nat}

/-- The open calls of a thread. -/
def returnsOf (c : Collector) (thread : Nat) : ReturnStack := (c.recorder? thread).elim [] (·.returns)

/-- What a thread has still to append. -/
def pendingOf (c : Collector) (thread : Nat) : List Event := (c.recorder? thread).elim [] (·.pending)

/-- The threads that have recorded and not ended. -/
def writers (c : Collector) : List Nat := c.recorders.map (·.thread)

theorem recorder?_eq_none_iff :
    c.recorder? t = none ↔ t ∉ c.writers := by
  simp [recorder?, writers, List.find?_eq_none]

theorem recorder?_attach
    (c : Collector) (t u : Nat) :
    (c.attach t).recorder? u =
      if u = t then some ((c.recorder? t).getD ⟨t, [], []⟩) else c.recorder? u := by
  unfold attach
  cases hrecorder : c.recorder? t with
  | some r =>
      by_cases hu : u = t
      · simp [hu, hrecorder]
      · simp [hu]
  | none =>
      let fresh : Recorder := ⟨t, [], []⟩
      have hfind : (c.recorders ++ [fresh]).find? (fun r => decide (r.thread = u)) =
          (c.recorder? u).or (if t = u then some fresh else none) := by
        rw [List.find?_append, recorder?, List.find?_singleton]
        simp [fresh]
      refine hfind.trans ?_
      by_cases hu : u = t
      · simp [hu, hrecorder, fresh]
      · simp [hu, Ne.symm hu]

theorem recorder?_post
    (c : Collector) (t u : Nat) (events : List Event) :
    (c.post t events).recorder? u =
      if u = t then
        some { (c.recorder? t).getD ⟨t, [], []⟩ with pending := c.pendingOf t ++ events }
      else c.recorder? u := by
  unfold post
  rw [recorder?_modifyRecorder, recorder?_attach]
  · by_cases hu : u = t
    · cases hrecorder : c.recorder? t <;> simp [hu, pendingOf, hrecorder]
    · simp [hu]
  · exact fun _ => rfl

theorem writers_modifyRecorder
    (c : Collector) (t : Nat) {f : Recorder → Recorder}
    (hf : ∀ r, (f r).thread = r.thread) :
    (c.modifyRecorder t f).writers = c.writers := by
  unfold modifyRecorder writers
  rw [List.map_map]
  refine List.map_congr_left ?_
  intro r _
  by_cases hr : r.thread = t
  · simp [hr, hf]
  · simp [hr]

/-- A thread starts to record once. -/
theorem nodup_writers_post
    (h : c.writers.Nodup)
    (t : Nat) (events : List Event) :
    (c.post t events).writers.Nodup := by
  have hattach : (c.post t events).writers = (c.attach t).writers :=
    writers_modifyRecorder _ t fun _ => rfl
  rw [hattach]
  unfold attach
  cases hrecorder : c.recorder? t with
  | some r =>
      simpa [hrecorder] using h
  | none =>
      have hnew := recorder?_eq_none_iff.1 hrecorder
      have hwriters : Collector.writers
          { c with
            logs := c.logs ++ [⟨t, [], []⟩]
            recorders := c.recorders ++ [⟨t, [], []⟩] } = c.writers ++ [t] := by
        simp [writers]
      simp only [Option.isSome_none, Bool.false_eq_true, if_false, hwriters]
      refine List.nodup_append.2 ⟨h, List.nodup_singleton t, ?_⟩
      rintro v hv w hw rfl
      exact hnew (List.mem_singleton.1 hw ▸ hv)

/-- A call of any kind, without its answer. -/
def calling (c : Collector) : Turn → Collector
  | .track t e => c.track t e
  | .enter t slot returnAddress timestamp callee => c.enter t slot returnAddress timestamp callee
  | .exit t slot timestamp => (c.exit t slot timestamp).2
  | _ => c

section Calling

variable {turn : Turn}

theorem recorder?_calling_of_ne
    (hcaller : turn.caller? = some t)
    (hu : u ≠ t) :
    (c.calling turn).recorder? u = c.recorder? u := by
  cases turn with
  | track v e =>
      cases hcaller
      simp [calling, track, recorder?_post, hu]
  | enter v slot returnAddress timestamp callee =>
      cases hcaller
      simp [calling, enter, recorder?_modifyRecorder, recorder?_post, hu]
  | exit v slot timestamp =>
      cases hcaller
      simp [calling, exit, recorder?_modifyRecorder, recorder?_post, hu]
  | append _ | leave _ | startDrain _ | goOn | tick _ | requestStop _ | seeStop _ =>
      cases hcaller

theorem nodup_writers_calling
    (h : c.writers.Nodup)
    (turn : Turn) :
    (c.calling turn).writers.Nodup := by
  cases turn with
  | track t e =>
      exact nodup_writers_post h t [e]
  | enter t slot returnAddress timestamp callee =>
      have hpost : (c.enter t slot returnAddress timestamp callee).writers = (c.post t _).writers :=
        writers_modifyRecorder _ t fun _ => rfl
      exact hpost ▸ nodup_writers_post h t _
  | exit t slot timestamp =>
      have hpost : (c.exit t slot timestamp).2.writers = (c.post t _).writers :=
        writers_modifyRecorder _ t fun _ => rfl
      exact hpost ▸ nodup_writers_post h t _
  | append _ | leave _ | startDrain _ | goOn | tick _ | requestStop _ | seeStop _ =>
      exact h

/-- A call does to its thread what it does to the thread by itself. -/
theorem calling_solo
    (hcaller : turn.caller? = some t)
    {p : Solo}
    (hreturns : c.returnsOf t = p.returns) :
    (c.calling turn).returnsOf t = (p.step turn).returns ∧
      ∃ events, (c.calling turn).pendingOf t = c.pendingOf t ++ events ∧
        (p.step turn).recorded = p.recorded ++ events := by
  cases turn with
  | track v e =>
      cases hcaller
      refine ⟨?_, [e], ?_, rfl⟩
      · refine Eq.trans ?_ hreturns
        cases hrecorder : c.recorder? t <;>
          simp [calling, track, returnsOf, recorder?_post, hrecorder]
      · simp [calling, track, pendingOf, recorder?_post]
  | enter v slot returnAddress timestamp callee =>
      cases hcaller
      refine ⟨?_, (p.returns.enter slot returnAddress timestamp callee).2, ?_, rfl⟩
      · simp [calling, enter, Solo.step, ← hreturns, returnsOf, recorder?_modifyRecorder,
          recorder?_post]
      · simp [calling, enter, ← hreturns, returnsOf, pendingOf, recorder?_modifyRecorder,
          recorder?_post]
  | exit v slot timestamp =>
      cases hcaller
      refine ⟨?_, (ReturnStack.exit slot timestamp p.returns).2.1, ?_, rfl⟩
      · simp [calling, exit, Solo.step, ← hreturns, returnsOf, recorder?_modifyRecorder,
          recorder?_post]
      · simp [calling, exit, ← hreturns, returnsOf, pendingOf, recorder?_modifyRecorder,
          recorder?_post]
  | append _ | leave _ | startDrain _ | goOn | tick _ | requestStop _ | seeStop _ =>
      cases hcaller

end Calling

/-! ## Appending and ending -/

theorem recorder?_advance
    {e : Event}
    (h : c.next? t = some e) (u : Nat) :
    (c.advance t).recorder? u =
      if u = t then (c.recorder? u).map fun r => { r with pending := r.pending.tail }
      else c.recorder? u := by
  rw [advance_eq h]
  exact recorder?_modifyRecorder (c.modifyLog t _) t u fun _ => rfl

theorem writers_advance
    {e : Event}
    (h : c.next? t = some e) :
    (c.advance t).writers = c.writers := by
  rw [advance_eq h]
  exact writers_modifyRecorder (c.modifyLog t _) t fun _ => rfl

/-- What a thread appends is the first of what it has to append. -/
theorem pendingOf_eq_cons
    {e : Event}
    (h : c.next? t = some e) :
    c.pendingOf t = e :: (c.advance t).pendingOf t := by
  unfold pendingOf
  rw [recorder?_advance h, if_pos rfl]
  unfold next? at h
  cases hrecorder : c.recorder? t with
  | none =>
      simp [hrecorder] at h
  | some r =>
      cases hlog : c.log? t with
      | none =>
          simp [hrecorder, hlog] at h
      | some log =>
          cases hpending : r.pending with
          | nil =>
              simp [hrecorder, hlog, hpending] at h
          | cons e' rest =>
              simp only [hrecorder, hlog, hpending] at h
              split at h
              · cases h
                simp [hpending]
              · cases h

/-- A thread that ended has no more to append. -/
theorem recorder?_leave_self
    (hdistinct : c.writers.Nodup)
    (h : (c.recorder? t).all (·.pending = []) = true) :
    (c.leave t).recorder? t = none := by
  rw [recorder?_eq_none_iff]
  intro hmem
  obtain ⟨r, hr, hthread⟩ := List.mem_map.1 hmem
  obtain ⟨hr, hkept⟩ := List.mem_filter.1 hr
  cases hrecorder : c.recorder? t with
  | none =>
      exact recorder?_eq_none_iff.1 hrecorder (List.mem_map.2 ⟨r, hr, hthread⟩)
  | some r' =>
      have hr' := List.mem_of_find?_eq_some hrecorder
      have hthread' : r'.thread = t := by
        simpa using List.find?_some hrecorder
      have hsame : r = r' := List.inj_on_of_nodup_map hdistinct hr hr' (hthread.trans hthread'.symm)
      rw [hrecorder, Option.all_some, decide_eq_true_eq] at h
      simp [hsame, hthread', h] at hkept

end Collector

/-! ## The calls of a thread in an interleaving -/

namespace Interleaving

/-- The call that a thread makes in a turn, if the turn is its own and it can make a call. -/
def callsIn (s : Interleaving) (thread : Nat) (turn : Turn) : List Turn :=
  if turn.caller? = some thread ∧ s.mayCall thread then [turn] else []

/-- The return address that a thread is given in a turn. -/
def answersIn (s : Interleaving) (thread : Nat) : Turn → List UInt64
  | .exit t slot timestamp =>
    if t = thread ∧ s.mayCall thread then [(s.collector.exit thread slot timestamp).1] else []
  | _ => []

/-- The calls that a thread makes, in order. -/
def callsOf (thread : Nat) : Interleaving → List Turn → List Turn
  | _, [] => []
  | s, turn :: rest => s.callsIn thread turn ++ callsOf thread (s.step turn) rest

/-- The return addresses that a thread is given, in order. -/
def answersOf (thread : Nat) : Interleaving → List Turn → List UInt64
  | _, [] => []
  | s, turn :: rest => s.answersIn thread turn ++ answersOf thread (s.step turn) rest

theorem callsOf_append
    (thread : Nat) (s : Interleaving) (turns turns' : List Turn) :
    s.callsOf thread (turns ++ turns') =
      s.callsOf thread turns ++ (s.run turns).callsOf thread turns' := by
  induction turns generalizing s with
  | nil =>
      rfl
  | cons turn rest ih =>
      simp only [List.cons_append, callsOf, ih, List.append_assoc]
      rfl

/-- Drains, pollers and threads that append or end make no calls. -/
theorem callsOf_eq_nil
    {turns : List Turn}
    (h : ∀ turn ∈ turns, turn.caller? = none)
    (thread : Nat) (s : Interleaving) :
    s.callsOf thread turns = [] := by
  induction turns generalizing s with
  | nil =>
      rfl
  | cons turn rest ih =>
      have hrest := ih (fun turn' hmem => h turn' (List.mem_cons_of_mem _ hmem)) (s.step turn)
      simp [callsOf, callsIn, h turn List.mem_cons_self, hrest]

/-- A thread has done what it would have done by itself; only some of its events may still wait. -/
structure Follows (s : Interleaving) (t : Nat) (p : Solo) : Prop where
  recorded : s.appended t ++ s.collector.pendingOf t = p.recorded
  returns : t ∉ s.ended → s.collector.returnsOf t = p.returns
  distinct : s.collector.writers.Nodup

variable {s s' : Interleaving} {t u : Nat} {turn : Turn} {p : Solo}

theorem follows_start
    (limit : Nat) (sinks : Nat → Nat) (t : Nat) :
    (start limit sinks).Follows t .start :=
  ⟨rfl, fun _ => rfl, List.nodup_nil⟩

theorem live_of_mayCall
    (h : s.mayCall t = true) :
    t ∉ s.ended := by
  unfold mayCall at h
  simp only [Bool.and_eq_true, decide_eq_true_eq] at h
  exact h.1

theorem step_of_caller
    (hcaller : turn.caller? = some u) :
    s.step turn =
      if s.mayCall u then { s with collector := s.collector.calling turn } else s := by
  cases turn with
  | track _ _ | enter _ _ _ _ _ | exit _ _ _ =>
      cases hcaller
      rfl
  | append _ | leave _ | startDrain _ | goOn | tick _ | requestStop _ | seeStop _ =>
      cases hcaller

/-- A step of a drain leaves to the threads what they keep for themselves. -/
theorem recorders_stepDrain
    (s : Interleaving) (d : Drainer) (stage : Stage) :
    (s.stepDrain d stage).collector.recorders = s.collector.recorders ∧
      (s.stepDrain d stage).ended = s.ended ∧
      (s.stepDrain d stage).appended = s.appended := by
  match stage with
  | .starting | .swapping [] | .swapping (_ :: _) | .handing _ _ | .clearing _ _ =>
      exact ⟨rfl, rfl, rfl⟩
  | .forgetting (_ :: _) =>
      exact ⟨rfl, rfl, rfl⟩
  | .forgetting [] =>
      cases d <;> exact ⟨rfl, rfl, rfl⟩

namespace Follows

/-- What others do. -/
theorem of_same
    (h : s.Follows t p)
    (hrecorder : s'.collector.recorder? t = s.collector.recorder? t)
    (happended : s'.appended t = s.appended t)
    (hended : t ∉ s'.ended → t ∉ s.ended)
    (hdistinct : s'.collector.writers.Nodup) :
    s'.Follows t p where
  recorded := by
    unfold Collector.pendingOf
    rw [hrecorder, happended]
    exact h.recorded
  returns := by
    intro hlive
    unfold Collector.returnsOf
    rw [hrecorder]
    exact h.returns (hended hlive)
  distinct := hdistinct

theorem of_recorders
    (h : s.Follows t p)
    (hrecorders : s'.collector.recorders = s.collector.recorders)
    (hended : s'.ended = s.ended)
    (happended : s'.appended = s.appended) :
    s'.Follows t p := by
  refine h.of_same ?_ (by rw [happended]) (by rw [hended]; exact id) ?_
  · unfold Collector.recorder?
    rw [hrecorders]
  · unfold Collector.writers
    rw [hrecorders]
    exact h.distinct

/-- A call of the thread itself. -/
theorem call
    (h : s.Follows t p)
    (hcaller : turn.caller? = some t)
    (hcall : s.mayCall t = true) :
    { s with collector := s.collector.calling turn }.Follows t (p.step turn) := by
  obtain ⟨hreturns, events, hpending, hrecorded⟩ :=
    Collector.calling_solo hcaller (h.returns (live_of_mayCall hcall))
  refine ⟨?_, fun _ => hreturns, Collector.nodup_writers_calling h.distinct turn⟩
  show s.appended t ++ (s.collector.calling turn).pendingOf t = _
  rw [hpending, ← List.append_assoc, h.recorded, hrecorded]

theorem append
    (h : s.Follows t p)
    {e : Event}
    (hnext : s.collector.next? u = some e) :
    Follows
      { s with
        collector := s.collector.advance u
        appended := fun v => if v = u then s.appended v ++ [e] else s.appended v } t p := by
  have hdistinct : (s.collector.advance u).writers.Nodup := by
    rw [Collector.writers_advance hnext]
    exact h.distinct
  have hrecorder := Collector.recorder?_advance hnext t
  by_cases hu : t = u
  · subst hu
    refine ⟨?_, ?_, hdistinct⟩
    · have hpending := Collector.pendingOf_eq_cons hnext
      simp only [if_true, List.append_assoc]
      rw [List.singleton_append, ← hpending]
      exact h.recorded
    · intro hlive
      refine Eq.trans ?_ (h.returns hlive)
      unfold Collector.returnsOf
      rw [hrecorder, if_pos rfl]
      cases s.collector.recorder? t <;> rfl
  · rw [if_neg hu] at hrecorder
    exact h.of_same hrecorder (if_neg hu) id hdistinct

theorem leave
    (h : s.Follows t p)
    (hdone : (s.collector.recorder? u).all (·.pending = []) = true) :
    Follows { s with collector := s.collector.leave u, ended := u :: s.ended } t p := by
  have hdistinct : (s.collector.leave u).writers.Nodup :=
    (List.filter_sublist.map _).nodup h.distinct
  by_cases hu : t = u
  · subst hu
    have hrecorder := Collector.recorder?_leave_self h.distinct hdone
    refine ⟨?_, fun hlive => absurd List.mem_cons_self hlive, hdistinct⟩
    have hnothing : s.collector.pendingOf t = [] := by
      unfold Collector.pendingOf
      cases hold : s.collector.recorder? t with
      | none =>
          rfl
      | some r =>
          simpa [hold] using hdone
    refine Eq.trans ?_ h.recorded
    rw [hnothing]
    unfold Collector.pendingOf
    rw [hrecorder]
    rfl
  · refine h.of_same (Collector.recorder?_leave s.collector hu) rfl ?_ hdistinct
    intro hlive hended
    exact hlive (List.mem_cons_of_mem _ hended)

/-- A turn that is no call. -/
theorem other
    (h : s.Follows t p)
    (hcaller : turn.caller? = none) :
    (s.step turn).Follows t p := by
  cases turn with
  | track _ _ | enter _ _ _ _ _ | exit _ _ _ =>
      cases hcaller
  | append v =>
      cases hnext : s.collector.next? v with
      | none =>
          simpa only [Interleaving.step, hnext] using h
      | some e =>
          simpa only [Interleaving.step, hnext] using h.append hnext
  | leave v =>
      simp only [Interleaving.step]
      split
      · next hdone => exact h.leave hdone
      · exact h
  | goOn =>
      cases hdrain : s.drain with
      | none =>
          simpa only [Interleaving.step, hdrain] using h
      | some going =>
          obtain ⟨hrecorders, hended, happended⟩ := recorders_stepDrain s going.1 going.2
          simp only [Interleaving.step, hdrain]
          exact h.of_recorders hrecorders hended happended
  | startDrain _ =>
      simp only [Interleaving.step]
      split
      · exact h.of_recorders rfl rfl rfl
      · exact h
  | tick _ =>
      simp only [Interleaving.step]
      split
      · exact h.of_recorders rfl rfl rfl
      · exact h
  | requestStop _ =>
      exact h.of_recorders rfl rfl rfl
  | seeStop _ =>
      simp only [Interleaving.step]
      split
      · exact h.of_recorders rfl rfl rfl
      · exact h

/-- **A step of an interleaving** is, for each thread, one of its calls or nothing. -/
theorem step
    (h : s.Follows t p)
    (turn : Turn) :
    (s.step turn).Follows t (p.run (s.callsIn t turn)) := by
  unfold callsIn
  cases hcaller : turn.caller? with
  | none =>
      simpa [Solo.run] using h.other hcaller
  | some u =>
      rw [step_of_caller hcaller]
      by_cases hu : u = t
      · subst hu
        by_cases hcall : s.mayCall u = true
        · simpa [hcall, Solo.run] using h.call hcaller hcall
        · simpa [hcall, Solo.run] using h
      · simp only [Option.some.injEq, hu, false_and, if_false, Solo.run, List.foldl_nil]
        split
        · refine h.of_same ?_ rfl id (Collector.nodup_writers_calling h.distinct turn)
          exact Collector.recorder?_calling_of_ne hcaller (Ne.symm hu)
        · exact h

/-- A thread is answered what it would be by itself. -/
theorem answers_step
    (h : s.Follows t p)
    (turn : Turn) :
    (p.run (s.callsIn t turn)).answers = p.answers ++ s.answersIn t turn := by
  by_cases htaken : turn.caller? = some t ∧ s.mayCall t = true
  · obtain ⟨hcaller, hcall⟩ := htaken
    have hreturns := h.returns (live_of_mayCall hcall)
    rw [callsIn, if_pos ⟨hcaller, hcall⟩]
    cases turn with
    | track _ _ =>
        simp [Solo.run, Solo.step, answersIn]
    | enter _ _ _ _ _ =>
        simp [Solo.run, Solo.step, answersIn]
    | exit _ _ _ =>
        cases hcaller
        simp [Solo.run, Solo.step, answersIn, hcall, Collector.exit, ← hreturns, Collector.returnsOf]
    | append _ | leave _ | startDrain _ | goOn | tick _ | requestStop _ | seeStop _ =>
        cases hcaller
  · rw [callsIn, if_neg htaken]
    cases turn with
    | exit v _ _ =>
        have hnot : ¬ (v = t ∧ s.mayCall t = true) := by
          rintro ⟨rfl, hcall⟩
          exact htaken ⟨rfl, hcall⟩
        simp [Solo.run, answersIn, hnot]
    | track _ _ | enter _ _ _ _ _ | append _ | leave _ | startDrain _ | goOn | tick _
    | requestStop _ | seeStop _ =>
        simp [Solo.run, answersIn]

theorem run
    (h : s.Follows t p)
    (turns : List Turn) :
    (s.run turns).Follows t (p.run (s.callsOf t turns)) ∧
      (p.run (s.callsOf t turns)).answers = p.answers ++ s.answersOf t turns := by
  induction turns generalizing s p with
  | nil =>
      exact ⟨h, (List.append_nil _).symm⟩
  | cons turn rest ih =>
      obtain ⟨hfollows, hanswers⟩ := ih (h.step turn)
      simp only [callsOf, answersOf, Solo.run_append]
      refine ⟨hfollows, ?_⟩
      rw [hanswers, h.answers_step, List.append_assoc]

end Follows

/-- **A thread among others** records and is answered what it would be by itself. -/
theorem follows_run
    (limit : Nat) (sinks : Nat → Nat) (turns : List Turn) (t : Nat) :
    let s := (start limit sinks).run turns
    let p := Solo.start.run ((start limit sinks).callsOf t turns)
    s.appended t ++ s.collector.pendingOf t = p.recorded ∧
      (start limit sinks).answersOf t turns = p.answers := by
  intro s p
  obtain ⟨hfollows, hanswers⟩ := (follows_start limit sinks t).run turns
  exact ⟨hfollows.recorded, hanswers.symm⟩

end Interleaving

end CallProfiler.Recording
