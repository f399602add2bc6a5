import CallProfiler.Proofs.Replay.Batches

/-!
# Replaying onto another tree

Open calls keep the numbers of their nodes from the tree that was in use when they were looked up last.
The tree of the next batch may have been cleared since, or hold other statistics.  Replaying onto a
tree is compared with replaying onto the empty one: at every path the first result is the second added
to what the tree held before.  So reports with the tree cleared in between, added path by path, are
the report of an uninterrupted replay.

**Main statements.**
* `update?_eq`: no node number is used that does not exist.
* `Overlays.step`: replaying an event on both trees keeps the second the difference of the first.
* `update_adds_onto`: the law of batches and reports.
-/

namespace CallProfiler.Profile

/-! ## Replaying that stops at an invalid node number -/

/-- The innermost open call has a node that exists. -/
def headExists (t : CallTree) (frames : List Frame) : Bool := frames.head?.all (·.node < t.size)

/-- `restoreFrames`, unless the node of a caller does not exist when it is needed. -/
def restoreFrames? (t : CallTree) : List Frame → Option (List Frame × CallTree)
  | [] => some ([], t)
  | f :: outer => do
    let (outer, t) ← restoreFrames? t outer
    if headExists t outer then
      let (node, t) := childNode t outer f.callee
      some ({ f with node } :: outer, t)
    else none

namespace CallStack

/-- `steps`, unless the node of the innermost open call does not exist when an event comes. -/
def steps? (s : CallStack) (t : CallTree) : List Event → Option (CallStack × CallTree)
  | [] => some (s, t)
  | e :: rest =>
    if headExists t s.frames then
      let (s, t) := s.step t e
      steps? s t rest
    else none

/-- `update`, unless a node number is needed that does not exist. -/
def update? (s : CallStack) (t : CallTree) (events : List Event) : Option (CallStack × CallTree) := do
  let (frames, t) ← restoreFrames? t s.frames
  steps? { s with frames } t events

end CallStack

theorem Placed.headExists
    {t : CallTree} {frames : List Frame}
    (hwf : t.WellFormed)
    (h : Placed t frames) :
    headExists t frames = true := by
  have hposition := hwf.isPosition h.leads_head
  cases frames with
  | nil =>
      rfl
  | cons f outer =>
      exact decide_eq_true (hposition f.node rfl)

theorem restoreFrames?_eq
    {t : CallTree}
    (hwf : t.WellFormed)
    (frames : List Frame) :
    restoreFrames? t frames = some (restoreFrames t frames) := by
  induction frames with
  | nil =>
      rfl
  | cons f outer ih =>
      have hplaced := kept_placed.restoreFrames ⟨hwf, Placed.nil⟩ outer
      simp [restoreFrames?, restoreFrames, ih, hplaced.2.headExists hplaced.1]

namespace CallStack

theorem steps?_eq
    {s : CallStack} {t : CallTree}
    (hwf : t.WellFormed)
    (h : Placed t s.frames)
    (events : List Event) :
    s.steps? t events = some (s.steps t events) := by
  induction events generalizing s t with
  | nil =>
      rfl
  | cons e rest ih =>
      have hstep := kept_placed.step ⟨hwf, h⟩ e
      rw [steps?, h.headExists hwf, if_pos rfl]
      exact ih hstep.1 hstep.2

/-- **No node number is used that does not exist**, whatever calls are open. -/
theorem update?_eq
    {t : CallTree}
    (hwf : t.WellFormed)
    (s : CallStack) (events : List Event) :
    s.update? t events = some (s.update t events) := by
  have hplaced := kept_placed.restoreFrames ⟨hwf, Placed.nil⟩ s.frames
  rw [update?, restoreFrames?_eq hwf]
  exact steps?_eq (s := { s with frames := _ }) hplaced.1 hplaced.2 events

end CallStack

/-! ## Two replays of the same events -/

/-- A call, whatever its node is. -/
def Frame.forgetNode (f : Frame) : Frame := { f with node := 0 }

/-- The open calls, whatever their nodes are. -/
def CallStack.forgetNodes (s : CallStack) : CallStack := { s with frames := s.frames.map Frame.forgetNode }

/-- What a tree holds is within bounds at every path. -/
def CallTree.Sound (t : CallTree) : Prop :=
  ∀ path s, t.statisticsAt path = some s → s.Sound

/-- Two replays of the same events, the second from the empty tree: the first tree holds what the
second does, added to what it held at the start, and the open calls are the same. -/
structure Overlays
    (base : CallTree) (s : CallStack) (t : CallTree) (s' : CallStack) (t' : CallTree) : Prop where
  wellFormed : t.WellFormed
  wellFormed' : t'.WellFormed
  placed : Placed t s.frames
  placed' : Placed t' s'.frames
  overhead : s.overhead = s'.overhead
  frames : s.frames.map Frame.forgetNode = s'.frames.map Frame.forgetNode
  statistics : ∀ path, t.statisticsAt path =
    Option.merge Statistics.merge (base.statisticsAt path) (t'.statisticsAt path)

/-- Calls that are the same but for their nodes. -/
theorem exists_node_of_forgetNode_eq
    {f f' : Frame}
    (h : f.forgetNode = f'.forgetNode) :
    ∃ node, f' = { f with node } := by
  obtain ⟨callee, entered, node, level, calleesTime, calleesOverhead⟩ := f
  obtain ⟨callee', entered', node', level', calleesTime', calleesOverhead'⟩ := f'
  simp only [Frame.forgetNode, Frame.mk.injEq] at h
  exact ⟨node', by simp [h]⟩

theorem map_callee_eq
    {frames frames' : List Frame}
    (h : frames.map Frame.forgetNode = frames'.map Frame.forgetNode) :
    frames.map Frame.callee = frames'.map Frame.callee := by
  have hcallees := congrArg (List.map Frame.callee) h
  simpa [Function.comp_def, Frame.forgetNode] using hcallees

namespace Overlays

variable {base t t' : CallTree} {s s' : CallStack}

theorem start
    (hwf : base.WellFormed)
    (o : Overhead) :
    Overlays base (.empty o) base (.empty o) .empty := by
  refine ⟨hwf, CallTree.WellFormed.empty, Placed.nil, Placed.nil, rfl, rfl, ?_⟩
  intro path
  rw [CallTree.statisticsAt_empty]
  cases base.statisticsAt path <;> rfl

/-- A call is put on its node in both trees. -/
theorem put
    (hbase : base.Sound)
    (h : Overlays base s t s' t')
    {f f' : Frame}
    (hsame : f.forgetNode = f'.forgetNode) :
    Overlays base
      { s with frames := { f with node := (childNode t s.frames f.callee).1 } :: s.frames }
      (childNode t s.frames f.callee).2
      { s' with frames := { f' with node := (childNode t' s'.frames f'.callee).1 } :: s'.frames }
      (childNode t' s'.frames f'.callee).2 := by
  have hfinds := h.placed.findsNode h.wellFormed f
  have hfinds' := h.placed'.findsNode h.wellFormed' f'
  have hpath : framePath (f :: s.frames) = framePath (f' :: s'.frames) := by
    obtain ⟨node, rfl⟩ := exists_node_of_forgetNode_eq hsame
    unfold framePath
    rw [List.map_cons, List.map_cons, map_callee_eq h.frames]
  refine ⟨hfinds.wellFormed, hfinds'.wellFormed, h.placed.push h.wellFormed f,
    h.placed'.push h.wellFormed' f', h.overhead, ?_, ?_⟩
  · rw [List.map_cons, List.map_cons, h.frames]
    exact congrArg (· :: _) hsame
  · intro path
    rw [hfinds.statistics, hfinds'.statistics, h.statistics, hpath]
    by_cases heq : path = framePath (f' :: s'.frames)
    · rw [if_pos heq, if_pos heq]
      cases hb : base.statisticsAt path with
      | none =>
          cases t'.statisticsAt path <;> rfl
      | some b =>
          cases t'.statisticsAt path with
          | none =>
              exact congrArg some (Statistics.merge_zero (hbase path b hb)).symm
          | some u =>
              rfl
    · rw [if_neg heq, if_neg heq]

/-- A call is made in both; its recursion level is the same, as it depends on the callees alone. -/
theorem push
    (hbase : base.Sound)
    (h : Overlays base s t s' t')
    (e : Event) :
    Overlays base (s.push t e).1 (s.push t e).2 (s'.push t' e).1 (s'.push t' e).2 := by
  have hlevel :
      (s.frames.filter (·.node = (childNode t s.frames e.callee).1)).length =
        (s'.frames.filter (·.node = (childNode t' s'.frames e.callee).1)).length := by
    have hfinds := h.placed.findsNode h.wellFormed ⟨e.callee, 0, 0, 0, 0, 0⟩
    have hfinds' := h.placed'.findsNode h.wellFormed' ⟨e.callee, 0, 0, 0, 0, 0⟩
    rw [(h.placed.mono hfinds.mono).length_filter_node hfinds.wellFormed hfinds.leads,
      (h.placed'.mono hfinds'.mono).length_filter_node hfinds'.wellFormed hfinds'.leads]
    unfold framePath
    rw [List.map_cons, List.map_cons, map_callee_eq h.frames]
  let f : Frame := ⟨e.callee, e.timestamp, 0,
    min (s.frames.filter (·.node = (childNode t s.frames e.callee).1)).length deepestLevel, 0, 0⟩
  let f' : Frame := ⟨e.callee, e.timestamp, 0,
    min (s'.frames.filter (·.node = (childNode t' s'.frames e.callee).1)).length deepestLevel, 0, 0⟩
  have hsame : f.forgetNode = f'.forgetNode := by
    simp only [f, f', hlevel]
  exact h.put hbase hsame

/-- The innermost call is accounted in both. -/
theorem account
    {o o' : Overhead} {f f' : Frame} {outer outer' : List Frame}
    (h : Overlays base ⟨o, f :: outer⟩ t ⟨o', f' :: outer'⟩ t')
    (level : Nat) (inclusive exclusive : Int) :
    Overlays base ⟨o, outer⟩ (t.modifyStatistics f.node (·.addCall level inclusive exclusive))
      ⟨o', outer'⟩ (t'.modifyStatistics f'.node (·.addCall level inclusive exclusive)) := by
  obtain ⟨hwf, hwf', hplaced, hplaced', hoverhead, hframes, hstatistics⟩ := h
  have hpath : framePath (f :: outer) = framePath (f' :: outer') := by
    unfold framePath
    rw [map_callee_eq hframes]
  cases hplaced with
  | cons hleads houter =>
      cases hplaced' with
      | cons hleads' houter' =>
          refine ⟨hwf.modifyStatistics _ _, hwf'.modifyStatistics _ _, houter.modifyStatistics _ _,
            houter'.modifyStatistics _ _, hoverhead, (List.cons.inj hframes).2, ?_⟩
          intro path
          rw [CallTree.statisticsAt_modifyStatistics _ _ hwf hleads,
            CallTree.statisticsAt_modifyStatistics _ _ hwf' hleads', hstatistics, hpath]
          by_cases heq : path = framePath (f' :: outer')
          · obtain ⟨u, hu⟩ := hwf'.exists_statistics hleads'
            rw [if_pos heq, if_pos heq, heq, hu]
            cases base.statisticsAt (framePath (f' :: outer')) with
            | none =>
                rfl
            | some b =>
                exact congrArg some (Statistics.merge_addCall b u _ _ _).symm
          · rw [if_neg heq, if_neg heq]

/-- The innermost call ends in both. -/
theorem pop
    (h : Overlays base s t s' t')
    (e : Event) :
    Overlays base (s.pop t e).1 (s.pop t e).2 (s'.pop t' e).1 (s'.pop t' e).2 := by
  obtain ⟨o, frames⟩ := s
  obtain ⟨o', frames'⟩ := s'
  obtain rfl : o = o' := h.overhead
  match frames, frames', h, h.frames with
  | [], [], h, _ =>
      exact h
  | f :: outer, f' :: outer', h, hframes =>
      obtain ⟨hsame, houter⟩ := List.cons.inj hframes
      obtain ⟨node, rfl⟩ := exists_node_of_forgetNode_eq hsame
      have haccount := h.account f.level
        (wrap (wrap (elapsed f.entered e.timestamp - o.inner) - f.calleesOverhead))
        (wrap (wrap (elapsed f.entered e.timestamp - o.inner) - f.calleesTime))
      match outer, outer', haccount, houter with
      | [], [], haccount, _ =>
          exact haccount
      | caller :: rest, caller' :: rest', haccount, houter =>
          obtain ⟨hcaller, hrest⟩ := List.cons.inj houter
          obtain ⟨node', rfl⟩ := exists_node_of_forgetNode_eq hcaller
          refine ⟨haccount.wellFormed, haccount.wellFormed', haccount.placed.charge _ _ _,
            haccount.placed'.charge _ _ _, rfl, ?_, haccount.statistics⟩
          exact congrArg (_ :: ·) hrest

theorem step
    (hbase : base.Sound)
    (h : Overlays base s t s' t')
    (e : Event) :
    Overlays base (s.step t e).1 (s.step t e).2 (s'.step t' e).1 (s'.step t' e).2 := by
  unfold CallStack.step
  split
  · exact h.pop e
  · exact h.push hbase e

theorem steps
    (hbase : base.Sound)
    (h : Overlays base s t s' t')
    (events : List Event) :
    Overlays base (s.steps t events).1 (s.steps t events).2
      (s'.steps t' events).1 (s'.steps t' events).2 := by
  induction events generalizing s t s' t' with
  | nil =>
      exact h
  | cons e rest ih =>
      exact ih (h.step hbase e)

/-- The nodes of the same open calls are looked up in both. -/
theorem restoreFrames
    (hwf : base.WellFormed)
    (hbase : base.Sound)
    (o : Overhead) (frames : List Frame) :
    Overlays base ⟨o, (Profile.restoreFrames base frames).1⟩ (Profile.restoreFrames base frames).2
      ⟨o, (Profile.restoreFrames .empty frames).1⟩ (Profile.restoreFrames .empty frames).2 := by
  induction frames with
  | nil =>
      exact start hwf o
  | cons f outer ih =>
      exact ih.put hbase (rfl : f.forgetNode = f.forgetNode)

theorem update
    (hwf : base.WellFormed)
    (hbase : base.Sound)
    (s : CallStack) (events : List Event) :
    Overlays base (s.update base events).1 (s.update base events).2
      (s.update .empty events).1 (s.update .empty events).2 :=
  (restoreFrames hwf hbase s.overhead s.frames).steps hbase events

end Overlays

/-! ## Reports -/

/-- Accounting keeps what is held within bounds: nothing at first, then sums that wrap around and a
longest call that only gets longer. -/
theorem kept_sound :
    Kept fun t frames => (t.WellFormed ∧ Placed t frames) ∧ t.Sound where
  push := by
    rintro t frames ⟨⟨hwf, hplaced⟩, hsound⟩ f
    refine ⟨kept_placed.push ⟨hwf, hplaced⟩ f, ?_⟩
    intro path s hs
    rw [(hplaced.findsNode hwf f).statistics] at hs
    split at hs
    · cases hold : t.statisticsAt path with
      | none =>
          rw [hold] at hs
          cases hs
          exact Statistics.sound_zero
      | some u =>
          rw [hold] at hs
          cases hs
          exact hsound path u hold
    · exact hsound path s hs
  ends := by
    rintro t f outer ⟨⟨hwf, hplaced⟩, hsound⟩ level inclusive exclusive
    refine ⟨kept_placed.ends ⟨hwf, hplaced⟩ level inclusive exclusive, ?_⟩
    intro path s hs
    cases hplaced with
    | cons hleads _ =>
        rw [CallTree.statisticsAt_modifyStatistics _ _ hwf hleads] at hs
        split at hs
        · obtain ⟨u, hu, rfl⟩ := Option.map_eq_some_iff.1 hs
          exact (hsound path u hu).addCall level inclusive exclusive
        · exact hsound path s hs
  charge := fun h o observed callee => ⟨kept_placed.charge h.1 o observed callee, h.2⟩

namespace CallStack

variable {t : CallTree}

theorem updates_append
    (s : CallStack) (t : CallTree) (batches batches' : List (List Event)) :
    s.updates t (batches ++ batches') =
      (s.updates t batches).1.updates (s.updates t batches).2 batches' :=
  List.foldl_append

theorem wellFormed_updates
    (hwf : t.WellFormed)
    (hsound : t.Sound)
    (s : CallStack) (batches : List (List Event)) :
    (s.updates t batches).2.WellFormed ∧ (s.updates t batches).2.Sound := by
  induction batches generalizing s t with
  | nil =>
      exact ⟨hwf, hsound⟩
  | cons events rest ih =>
      have hkept := kept_sound.update ⟨⟨hwf, Placed.nil⟩, hsound⟩ s events
      exact ih hkept.1.1 hkept.2 _

theorem statisticsAt_updates
    (hwf : t.WellFormed)
    (hsound : t.Sound)
    (s : CallStack) (batches : List (List Event)) (path : List UInt64) :
    (s.updates t batches).2.statisticsAt path =
      Option.merge Statistics.merge (t.statisticsAt path)
        ((s.updates .empty batches).2.statisticsAt path) := by
  cases batches with
  | nil =>
      show t.statisticsAt path = Option.merge _ _ (CallTree.empty.statisticsAt path)
      rw [CallTree.statisticsAt_empty]
      cases t.statisticsAt path <;> rfl
  | cons events rest =>
      rw [updates_eq_update hwf.linksExist, updates_eq_update CallTree.WellFormed.empty.linksExist]
      exact (Overlays.update hwf hsound s _).statistics path

/-- The trees of reports, where each report consists of batches and the tree is cleared after it. -/
def reports (s : CallStack) (t : CallTree) : List (List (List Event)) → List CallTree
  | [] => []
  | batches :: rest => (s.updates t batches).2 :: reports (s.updates t batches).1 .empty rest

/-- **Reports** with the tree cleared in between, added path by path, amount to the report of all
batches without clearing. -/
theorem statisticsAt_reports
    (hwf : t.WellFormed)
    (hsound : t.Sound)
    (s : CallStack) (first : List (List Event)) (rest : List (List (List Event)))
    (path : List UInt64) :
    (s.updates t (first :: rest).flatten).2.statisticsAt path =
      ((s.reports t (first :: rest)).map (·.statisticsAt path)).foldr
        (Option.merge Statistics.merge) none := by
  induction rest generalizing s t first with
  | nil =>
      simp only [reports, List.flatten_cons, List.flatten_nil, List.append_nil, List.map_cons,
        List.map_nil, List.foldr_cons, List.foldr_nil]
      cases (s.updates t first).2.statisticsAt path <;> rfl
  | cons second more ih =>
      have hkept := wellFormed_updates hwf hsound s first
      have hempty : CallTree.empty.Sound := by
        intro path u hu
        rw [CallTree.statisticsAt_empty] at hu
        cases hu
      rw [List.flatten_cons, updates_append, statisticsAt_updates hkept.1 hkept.2,
        ih CallTree.WellFormed.empty hempty]
      rfl

/-- **Replaying onto a tree adds to what it holds.**  Whatever calls are open, and on any well-formed
tree: no node number is used that does not exist; the statistics at each path are those that were
there, merged with those that the same events give in the empty tree; and the open calls left behind
are those left behind there, but for the numbers of their nodes.  Sums that leave their bounds wrap around
in the same way on both sides; what the tree holds at first is within bounds.  So reports with the tree
cleared in between, merged path by path, hold each call exactly as the uninterrupted replay does. -/
theorem update_adds_onto
    (s : CallStack) (t : CallTree)
    (hwf : t.WellFormed)
    (hheld : ∀ node ∈ t.nodes, node.statistics.Sound) :
    (∀ events,
      s.update? t events = some (s.update t events) ∧
      (∀ path, (s.update t events).2.statisticsAt path =
        Option.merge Statistics.merge (t.statisticsAt path)
          ((s.update .empty events).2.statisticsAt path)) ∧
      (s.update t events).1.forgetNodes = (s.update .empty events).1.forgetNodes) ∧
    ∀ reported, reported ≠ [] → ∀ path,
      (s.updates t reported.flatten).2.statisticsAt path =
        ((s.reports t reported).map (·.statisticsAt path)).foldr
          (Option.merge Statistics.merge) none := by
  have hsound : t.Sound := by
    intro path u hu
    obtain ⟨node, hnode, rfl⟩ := Option.map_eq_some_iff.1 hu
    obtain ⟨id, -, hid⟩ := Option.bind_eq_some_iff.1 hnode
    exact hheld node (Array.mem_of_getElem? hid)
  constructor
  · intro events
    have hoverlays := Overlays.update hwf hsound s events
    refine ⟨update?_eq hwf s events, hoverlays.statistics, ?_⟩
    simp only [forgetNodes, hoverlays.overhead, hoverlays.frames]
  · intro reported hne path
    cases reported with
    | nil =>
        exact absurd rfl hne
    | cons first rest =>
        exact statisticsAt_reports hwf hsound s first rest path

/-- Two open calls of one function, with nodes that do not exist, in a tree that has seen it; the tree
is cleared while they are open. -/
theorem update_adds_onto_cleared :
    let t := ((CallTree.empty.entry none 9).2.entry none 7).2.modifyStatistics 1 (·.addCall 0 5 5)
    let s : CallStack := ⟨⟨1, 2⟩, [⟨7, 20, 8, 0, 0, 0⟩, ⟨7, 10, 4, 0, 0, 0⟩]⟩
    let reported : List (List (List Event)) :=
      [[[⟨30, 7⟩, .exit 40], [⟨50, 7⟩]], [[.exit 60, .exit 70], [.exit 100]]]
    t.WellFormed ∧ (∀ node ∈ t.nodes, node.statistics.Sound) ∧ reported ≠ [] ∧
      s.update? t [.exit 60] = some (s.update t [.exit 60]) ∧
      (s.reports t reported).map (·.statisticsAt [7]) =
        [some ⟨1, 0, 5, 5, 5⟩, some ⟨1, 0, 80, 37, 80⟩] ∧
      (s.updates t reported.flatten).2.statisticsAt [7] = some ⟨2, 0, 85, 42, 80⟩ := by
  intro t s reported
  have hwf : t.WellFormed :=
    ((CallTree.WellFormed.empty.entry (by rintro p ⟨⟩)).entry (by rintro p ⟨⟩)).modifyStatistics _ _
  have hheld : ∀ node ∈ t.nodes, node.statistics.Sound := by decide
  have hne : reported ≠ [] := by decide
  have hlaws := update_adds_onto s t hwf hheld
  refine ⟨hwf, hheld, hne, (hlaws.1 _).1, by decide, ?_⟩
  rw [hlaws.2 reported hne]
  decide

end CallStack

end CallProfiler.Profile
