import CallProfiler.Proofs.Replay.ClosedForm
import CallProfiler.Proofs.Replay.Placement

/-!
# Replaying accounts every call

Replaying events keeps one frame for each open call, with running sums over the calls that ended in
it; the call tree keeps one node for each path.  The invariant `Accounts` says what both hold, in
terms of the history of the events so far.

**Main statements.**
* `Accounts.step`: replaying one event keeps the invariant.
* `replayed_statistics`: after any events, the tree holds the closed form at every path.
-/

namespace CallProfiler.Profile

open OngoingCall

/-- A frame stands for an open call on top of others: it has the call's place in the tree and sums
over the calls that the call made. -/
structure Frame.StandsFor
    (f : Frame) (o : Overhead) (t : CallTree)
    (c : OngoingCall) (below : List OngoingCall) : Prop where
  leads : t.Leads (shorten (chain (c :: below))) (some f.node)
  callee : f.callee = c.callee
  entered : f.entered = c.entered.1.timestamp
  level : f.level = min (recursionLevel (chain (c :: below))) deepestLevel
  calleesTime : f.calleesTime = wrap (c.madeTime o)
  calleesOverhead : f.calleesOverhead = wrap ((o.inner + o.outer) * c.madeCount)

/-- Frames stand for the open calls, one for each. -/
inductive StandFor (o : Overhead) (t : CallTree) : List OngoingCall → List Frame → Prop
  | nil : StandFor o t [] []
  | cons {c : OngoingCall} {below : List OngoingCall} {f : Frame} {outer : List Frame} :
      f.StandsFor o t c below →
      StandFor o t below outer →
      StandFor o t (c :: below) (f :: outer)

/-- A stack and a tree hold what a history amounts to. -/
structure CallStack.Accounts
    (s : CallStack) (t : CallTree) (o : Overhead) (h : History) : Prop where
  overhead : s.overhead = o
  wellFormed : t.WellFormed
  frames : StandFor o t h.ongoing s.frames
  statistics : ∀ path, t.statisticsAt path =
    if path ∈ h.paths then some (h.statisticsAt o path) else none

/-! ## Frames -/

section Frames

variable {o : Overhead} {t t' : CallTree}

/-- Frames keep standing for their calls while no path is lost. -/
theorem StandFor.mono
    (hlead : ∀ {path id}, t.Leads path (some id) → t'.Leads path (some id))
    {calls : List OngoingCall} {frames : List Frame}
    (h : StandFor o t calls frames) :
    StandFor o t' calls frames := by
  induction h with
  | nil =>
      exact StandFor.nil
  | cons hframe _ ih =>
      exact StandFor.cons { hframe with leads := hlead hframe.leads } ih

theorem StandFor.map_callee
    {calls : List OngoingCall} {frames : List Frame}
    (h : StandFor o t calls frames) :
    frames.map (·.callee) = calls.map OngoingCall.callee := by
  induction h with
  | nil =>
      rfl
  | cons hframe _ ih =>
      simp [hframe.callee, ih]

/-- Frames that stand for open calls have the places of these calls. -/
theorem StandFor.placed
    {calls : List OngoingCall} {frames : List Frame}
    (h : StandFor o t calls frames) :
    Placed t frames := by
  induction h with
  | nil =>
      exact Placed.nil
  | @cons c below f outer hframe hrest ih =>
      refine Placed.cons ?_ ih
      have hpath : framePath (f :: outer) = shorten (chain (c :: below)) := by
        simp [framePath, chain, hframe.callee, hrest.map_callee]
      rw [hpath]
      exact hframe.leads

theorem StandFor.eq_nil
    {frames : List Frame}
    (h : StandFor o t [] frames) :
    frames = [] := by
  cases h
  rfl

/-- Frames with one node are those with one path. -/
theorem StandFor.length_filter_node
    (hwf : t.WellFormed)
    {calls : List OngoingCall} {frames : List Frame}
    (h : StandFor o t calls frames)
    {path : List UInt64} {node : Nat}
    (hpath : t.Leads path (some node)) :
    (frames.filter (·.node = node)).length = samePath path (calls.map OngoingCall.callee) := by
  rw [h.placed.length_filter_node hwf hpath, h.map_callee]

theorem findsNode_childNode
    (hwf : t.WellFormed)
    {calls : List OngoingCall} {frames : List Frame}
    (h : StandFor o t calls frames)
    (callee : UInt64) :
    FindsNode t (shorten (chain calls ++ [callee])) (childNode t frames callee) := by
  have hpath : framePath (⟨callee, 0, 0, 0, 0, 0⟩ :: frames) = shorten (chain calls ++ [callee]) := by
    simp [framePath, chain, h.map_callee]
  rw [← hpath]
  exact h.placed.findsNode hwf _

end Frames

/-! ## One event -/

namespace History

/-- Where no call was entered nothing is accounted. -/
theorem statisticsAt_of_notMem
    {h : History} {path : List UInt64}
    (hpath : path ∉ h.paths)
    (o : Overhead) :
    h.statisticsAt o path = .zero := by
  have hnone : h.callsAt path = [] := by
    rw [callsAt, List.filter_eq_nil_iff]
    intro p hp heq
    apply hpath
    have hmem : p.chain ∈ h.calls.map (·.chain) ++ chains h.ongoing :=
      List.mem_append_left _ (List.mem_map_of_mem hp)
    rw [← of_decide_eq_true heq]
    exact List.mem_map_of_mem hmem
  rw [statisticsAt, hnone, summarize_nil]

/-- Leaving a call accounts it at its path and nowhere else. -/
theorem statisticsAt_leave
    (o : Overhead)
    (past : List Episode) (c : OngoingCall)
    (below : List OngoingCall) (timestamp : UInt64)
    (path : List UInt64) :
    (leave ⟨past, c :: below⟩ timestamp).statisticsAt o path =
      if path = shorten (chain (c :: below)) then
        (statisticsAt o ⟨past, c :: below⟩ path).addCall
          (min (recursionLevel (chain (c :: below))) deepestLevel)
          ((Call.ended c.entered timestamp c.made).inclusive o)
          ((Call.ended c.entered timestamp c.made).exclusive o)
      else statisticsAt o ⟨past, c :: below⟩ path := by
  have hcalls := (calls_leave past c below timestamp).filter fun p => shorten p.chain = path
  rw [statisticsAt, callsAt, summarize_perm o hcalls]
  by_cases heq : path = shorten (chain (c :: below))
  · rw [if_pos heq, List.filter_cons_of_pos (by simp [heq]), summarize_cons]
    rfl
  · have hne : ¬ shorten (chain (c :: below)) = path := fun h => heq h.symm
    rw [if_neg heq, List.filter_cons_of_neg (by simp [hne])]
    rfl

end History

namespace CallStack

variable {s : CallStack} {t : CallTree} {o : Overhead} {h : History}

/-- Entering a call keeps the invariant. -/
theorem Accounts.push
    (hacc : s.Accounts t o h)
    (e : Enter) :
    (s.push t e.1).1.Accounts (s.push t e.1).2 o (h.enter e) := by
  have hfinds := findsNode_childNode hacc.wellFormed hacc.frames e.1.callee
  have hframes := hacc.frames.mono hfinds.mono
  have hcallee : OngoingCall.callee ⟨e, []⟩ = e.1.callee := by
    rfl
  have hlevel : recursionLevel (chain (⟨e, []⟩ :: h.ongoing)) =
      (s.frames.filter (·.node = (childNode t s.frames e.1.callee).1)).length := by
    rw [hframes.length_filter_node hfinds.wellFormed hfinds.leads]
    have hcount := samePath_shorten e.1.callee (h.ongoing.map OngoingCall.callee)
    have hchain : chain h.ongoing = (h.ongoing.map OngoingCall.callee).reverse := by
      rfl
    rw [List.reverse_cons, ← hchain] at hcount
    rw [hcount, chain_cons, hchain]
    simp [recursionLevel, hcallee]
  constructor
  · exact hacc.overhead
  · exact hfinds.wellFormed
  · refine StandFor.cons ?_ hframes
    constructor
    · rw [chain_cons, hcallee]
      exact hfinds.leads
    · rfl
    · rfl
    · exact congrArg (min · deepestLevel) hlevel.symm
    · rfl
    · simp [madeCount]
      rfl
  · intro path
    refine (hfinds.statistics path).trans ?_
    rw [hacc.statistics path]
    have hmem := h.mem_paths_enter e path
    have hsame : (h.enter e).statisticsAt o path = h.statisticsAt o path := by
      rw [History.statisticsAt, History.callsAt, h.calls_enter e]
      rfl
    rw [hsame]
    by_cases hnew : path = shorten (chain h.ongoing ++ [e.1.callee])
    · rw [if_pos hnew, if_pos (hmem.2 (Or.inl hnew))]
      by_cases hold : path ∈ h.paths
      · simp [hold]
      · simp [hold, History.statisticsAt_of_notMem hold]
    · by_cases hold : path ∈ h.paths
      · simp [hnew, hold, hmem]
      · simp [hnew, hold, hmem]

/-- The times that the stack works out for a call are those of the closed form. -/
theorem times_eq
    {f : Frame} {c : OngoingCall} {below : List OngoingCall}
    (hframe : f.StandsFor o t c below)
    (timestamp : UInt64) :
    wrap (wrap (elapsed f.entered timestamp - o.inner) - f.calleesOverhead) =
        (Call.ended c.entered timestamp c.made).inclusive o ∧
      wrap (wrap (elapsed f.entered timestamp - o.inner) - f.calleesTime) =
        (Call.ended c.entered timestamp c.made).exclusive o := by
  rw [hframe.entered, hframe.calleesOverhead, hframe.calleesTime]
  simp only [wrap_wrap_sub, wrap_sub_wrap]
  exact ⟨rfl, rfl⟩

/-- A caller charged with a call that ended still stands for the open call that made it. -/
theorem standsFor_charge
    {f caller : Frame} {c d : OngoingCall} {below rest : List OngoingCall}
    (hframe : f.StandsFor o t c below)
    (hcaller : caller.StandsFor o t d rest)
    (timestamp : UInt64) :
    (charge o (wrap (elapsed f.entered timestamp - o.inner)) f caller).StandsFor o t
      { d with made := d.made ++ [.ended c.entered timestamp c.made] } rest := by
  have hchain : chain ({ d with made := d.made ++ [.ended c.entered timestamp c.made] } :: rest) =
      chain (d :: rest) := by
    rfl
  constructor
  · rw [hchain]
    exact hcaller.leads
  · exact hcaller.callee
  · exact hcaller.entered
  · rw [hchain]
    exact hcaller.level
  · have hduration : (Call.ended c.entered timestamp c.made).duration =
        elapsed f.entered timestamp := by
      rw [hframe.entered]
      rfl
    have htaken : elapsed f.entered timestamp - o.inner + (o.inner + o.outer) =
        elapsed f.entered timestamp + o.outer := by
      omega
    simp only [charge, Overhead.total, hcaller.calleesTime, madeTime_append, hduration,
      wrap_wrap_add, wrap_add_wrap, htaken]
  · rw [madeCount_append]
    have hsame : madeCount ⟨c.entered, c.made⟩ = madeCount c := by
      rfl
    simp only [charge, Overhead.total, hframe.calleesOverhead, hcaller.calleesOverhead, hsame,
      wrap_wrap_add, wrap_add_wrap, Int.natCast_add, Int.mul_add, Int.natCast_one, Int.mul_one]

/-- Leaving a call keeps the invariant. -/
theorem Accounts.pop
    (hacc : s.Accounts t o h)
    (e : Event) :
    (s.pop t e).1.Accounts (s.pop t e).2 o (h.leave e.timestamp) := by
  obtain ⟨past, ongoing⟩ := h
  obtain ⟨overhead, frames⟩ := s
  obtain ⟨rfl, hwf, hframes, hstatistics⟩ := hacc
  cases hframes with
  | nil =>
      refine ⟨rfl, hwf, StandFor.nil, ?_⟩
      intro path
      have hpaths := History.mem_paths_leave ⟨past, []⟩ e.timestamp path
      have hsame : (History.leave ⟨past, []⟩ e.timestamp).statisticsAt overhead path =
          History.statisticsAt overhead ⟨past, []⟩ path := by
        rw [History.statisticsAt, History.callsAt, History.calls_leave_nil]
        rfl
      rw [hsame]
      simp only [hpaths]
      exact hstatistics path
  | @cons c below f outer hframe houter =>
      have htimes := times_eq hframe e.timestamp
      have hmono : ∀ {path id}, t.Leads path (some id) →
          (t.modifyStatistics f.node (·.addCall f.level
            ((Call.ended c.entered e.timestamp c.made).inclusive overhead)
            ((Call.ended c.entered e.timestamp c.made).exclusive overhead))).Leads path (some id) := by
        intro path id hlead
        simpa using hlead
      have htree : (CallStack.pop ⟨overhead, f :: outer⟩ t e).2 =
          t.modifyStatistics f.node (·.addCall f.level
            ((Call.ended c.entered e.timestamp c.made).inclusive overhead)
            ((Call.ended c.entered e.timestamp c.made).exclusive overhead)) := by
        rw [← htimes.1, ← htimes.2]
        cases outer <;> rfl
      rw [htree]
      constructor
      · cases outer <;> rfl
      · exact hwf.modifyStatistics _ _
      · cases houter with
        | nil =>
            exact StandFor.nil
        | cons hcaller hrest =>
            refine StandFor.cons ?_ (hrest.mono hmono)
            have hcharged := standsFor_charge hframe hcaller e.timestamp
            exact { hcharged with leads := hmono hcharged.leads }
      · intro path
        have hpaths := History.mem_paths_leave ⟨past, c :: below⟩ e.timestamp path
        rw [CallTree.statisticsAt_modifyStatistics _ _ hwf hframe.leads, hstatistics path,
          History.statisticsAt_leave]
        simp only [hpaths]
        by_cases heq : path = shorten (chain (c :: below))
        · have hmem : path ∈ History.paths ⟨past, c :: below⟩ := by
            rw [heq]
            exact List.mem_map_of_mem (List.mem_append_right _ (List.mem_cons_self))
          rw [if_pos heq, if_pos heq, if_pos hmem, if_pos hmem, ← hframe.level]
          rfl
        · rw [if_neg heq, if_neg heq]

/-- **Replaying one event** keeps the invariant. -/
theorem Accounts.step
    (hacc : s.Accounts t o h)
    (e : Event) :
    (s.step t e).1.Accounts (s.step t e).2 o (h.step e) := by
  unfold CallStack.step History.step
  by_cases hexit : e.isExit
  · simp only [hexit, if_true, dif_pos]
    exact hacc.pop e
  · simp only [hexit, dif_neg, Bool.false_eq_true, not_false_eq_true, if_false]
    exact hacc.push ⟨e, by simpa using hexit⟩

/-- Replaying events keeps the invariant. -/
theorem Accounts.steps
    (hacc : s.Accounts t o h)
    (events : List Event) :
    (s.steps t events).1.Accounts (s.steps t events).2 o (events.foldl History.step h) := by
  induction events generalizing s t h with
  | nil =>
      exact hacc
  | cons e rest ih =>
      exact ih (hacc.step e)

/-- Before any event nothing is accounted. -/
theorem accounts_empty
    (o : Overhead) :
    (CallStack.empty o).Accounts .empty o .empty := by
  refine ⟨rfl, CallTree.WellFormed.empty, StandFor.nil, ?_⟩
  intro path
  rw [CallTree.statisticsAt_empty, if_neg]
  simp [History.paths, History.calls, History.empty, completed, chains]

theorem accounts_update_empty
    (o : Overhead) (events : List Event) :
    ((CallStack.empty o).update .empty events).1.Accounts
      ((CallStack.empty o).update .empty events).2 o (.ofEvents events) :=
  (accounts_empty o).steps events

/-- Every node is the one of a call that was entered. -/
theorem Accounts.exists_path
    (hacc : s.Accounts t o h)
    {id : Nat}
    (hid : id < t.size) :
    ∃ path ∈ h.paths, t.follow? none path = some id := by
  obtain ⟨path, hpath⟩ := hacc.wellFormed.exists_path hid
  obtain ⟨statistics, hsome⟩ := hacc.wellFormed.exists_statistics hpath
  refine ⟨path, ?_, hpath.follow?_eq⟩
  have hat := hacc.statistics path
  split at hat
  · assumption
  · rw [hsome] at hat
    cases hat

/-- What is held at a path is the plain sums where no number leaves its bounds. -/
theorem Accounts.statistics_eq_tally
    (hacc : s.Accounts t o h)
    {path : List UInt64}
    (hpath : path ∈ h.paths)
    (hbounds : WithinBounds o (h.callsAt path)) :
    t.statisticsAt path = some (tally o (h.callsAt path)) := by
  rw [hacc.statistics, if_pos hpath, History.statisticsAt, summarize_eq_tally hbounds]

/-- **The replayed statistics.**  The events of a thread form one history of calls.  After they are
replayed from nothing, the tree has a node at exactly the paths of the calls that were entered, and
the node at a path holds the closed form over the completed calls with that path: each sum as it is
held in its bounds, and so the plain sums where no number leaves its bounds. -/
theorem replayed_statistics
    (o : Overhead) (events : List Event) :
    let h := History.ofEvents events
    let tree := ((CallStack.empty o).update .empty events).2
    (h.events = events ∧ ∀ h' : History, h'.events = events → h' = h) ∧
    (∀ path, (tree.find? path).map (·.statistics) =
      if path ∈ h.paths then some (summarize o (h.callsAt path)) else none) ∧
    (∀ path ∈ h.paths, WithinBounds o (h.callsAt path) →
      (tree.find? path).map (·.statistics) = some (tally o (h.callsAt path))) ∧
    (∀ id, id < tree.size → ∃ path ∈ h.paths, tree.follow? none path = some id) := by
  intro h tree
  have hacc : ((CallStack.empty o).update .empty events).1.Accounts tree o h :=
    accounts_update_empty o events
  refine ⟨⟨History.events_ofEvents events, ?_⟩, hacc.statistics, ?_, ?_⟩
  · intro h' hevents
    rw [← History.ofEvents_events h', hevents]
  · intro path hpath hbounds
    exact hacc.statistics_eq_tally hpath hbounds
  · intro id hid
    exact hacc.exists_path hid

/-- A function that calls itself twice over, with times within bounds; and two calls that take `2 ^ 63`
ticks together, which are held as `-2 ^ 63`. -/
theorem replayed_statistics_wrapped :
    let o : Overhead := ⟨1, 2⟩
    let events : List Event := [⟨10, 7⟩, ⟨20, 7⟩, ⟨30, 7⟩, .exit 40, .exit 60, .exit 90]
    let beyond : List Event := [⟨0, 7⟩, .exit 9223372036854775807, ⟨0, 7⟩, .exit 1]
    [7, 7] ∈ (History.ofEvents events).paths ∧
      WithinBounds o ((History.ofEvents events).callsAt [7, 7]) ∧
      (((CallStack.empty o).update .empty events).2.find? [7, 7]).map (·.statistics) =
        some ⟨2, 1, 36, 36, 36⟩ ∧
      (((CallStack.empty .zero).update .empty beyond).2.find? [7]).map (·.statistics) =
        some ⟨2, 0, -9223372036854775808, -9223372036854775808, 9223372036854775807⟩ := by
  intro o events beyond
  let inner : Call := .ended ⟨⟨30, 7⟩, rfl⟩ 40 []
  let outer : Call := .ended ⟨⟨20, 7⟩, rfl⟩ 60 [inner]
  have hhistory : History.ofEvents events =
      ⟨[.call (.ended ⟨⟨10, 7⟩, rfl⟩ 90 [outer])], []⟩ := by
    rfl
  have hcalls : (History.ofEvents events).callsAt [7, 7] = [⟨[7, 7], outer⟩, ⟨[7, 7, 7], inner⟩] := by
    simp [hhistory, History.callsAt, History.calls, Episode.calls, Call.placed, completed, outer, inner]
    rfl
  have hpath : [7, 7] ∈ (History.ofEvents events).paths := by
    refine List.mem_map.2 ⟨[7, 7], ?_, by decide⟩
    simp [hhistory, History.calls, Episode.calls, Call.placed, outer]
  have hinner : inner.wholeTime o = 9 ∧ inner.ownTime o = 9 := by
    simp only [Call.wholeTime, Call.nestedCount, Call.made, List.map_nil, inner]
    decide
  have houter : outer.wholeTime o = 36 ∧ outer.ownTime o = 27 := by
    simp only [Call.wholeTime, Call.nestedCount, Call.made, List.map_cons, List.map_nil, Call.count,
      outer, inner]
    decide
  have hlevels : recursionLevel [7, 7] = 0 ∧ recursionLevel [7, 7, 7] = 1 := by
    decide
  have htally : tally o [⟨[7, 7], outer⟩, ⟨[7, 7, 7], inner⟩] = ⟨2, 1, 36, 36, 36⟩ := by
    have houtermost : [⟨[7, 7], outer⟩, ⟨[7, 7, 7], inner⟩].filter (recursionLevel ·.chain = 0) =
        [(⟨[7, 7], outer⟩ : PlacedCall)] := rfl
    simp only [tally, houtermost, List.map_cons, List.map_nil, hinner, houter, hlevels]
    decide
  have hbounds : WithinBounds o ((History.ofEvents events).callsAt [7, 7]) := by
    rw [hcalls]
    refine ⟨by decide, by decide, ?_, by rw [htally]; decide, by rw [htally]; decide⟩
    simp only [List.mem_cons, List.not_mem_nil, or_false, forall_eq_or_imp, forall_eq, hinner, houter]
    decide
  refine ⟨hpath, hbounds, ?_, by decide⟩
  rw [(replayed_statistics o events).2.2.1 [7, 7] hpath hbounds, hcalls, htally]

end CallStack

end CallProfiler.Profile
