import CallProfiler.Profile.CallStack
import CallProfiler.Proofs.CallTree.Paths
import CallProfiler.Proofs.Replay.Folding

/-!
# Where open calls stand in a tree

An open call has the node to which its chain of callees leads, shortened: a call that is at least the
third of its run shares the node of its caller, any other call has a node below it.  In a well-formed
tree the path and the node number determine each other, so what replaying does can be said by paths.

**Main statements.**
* `Kept.update`: what looking for nodes, ending calls and charging callers keep, replaying keeps.
* `Placed.findsNode`: what looking for the node of a new call does to a tree.
* `Placed.length_filter_node`: the recursion level of a call depends on the callees alone.
-/

namespace CallProfiler.Profile

/-! ## The node of a new call -/

section ChildNode

variable {frames : List Frame} {callee : UInt64}

/-- At least the third call of its run has the node of its caller, and no tree is looked at. -/
theorem childNode_of_run
    (h : (frames.map (·.callee)).take 2 = [callee, callee]) :
    ∃ node, frames.head?.map (·.node) = some node ∧ ∀ t, childNode t frames callee = (node, t) := by
  match frames, h with
  | parent :: grand :: rest, h =>
      obtain ⟨hparent, hgrand⟩ : parent.callee = callee ∧ grand.callee = callee := by
        simpa using h
      refine ⟨parent.node, rfl, ?_⟩
      intro t
      simp [childNode, hparent, hgrand]
  | [], h => simp at h
  | [parent], h => simp at h

/-- Any other call has a node below that of its caller. -/
theorem childNode_of_not_run
    (h : (frames.map (·.callee)).take 2 ≠ [callee, callee])
    (t : CallTree) :
    childNode t frames callee = t.entry (frames.head?.map (·.node)) callee := by
  match frames, h with
  | [], _ => rfl
  | [parent], _ => rfl
  | parent :: grand :: rest, h =>
      have hrun : ¬ (parent.callee = callee ∧ grand.callee = callee) := by
        simpa using h
      simp [childNode, hrun]

end ChildNode

/-! ## What replaying keeps -/

/-- A property of a tree and the open calls in it that is kept when a call is put on its node, whatever
else is noted of it, when the innermost call ends, and when a caller is charged. -/
structure Kept (I : CallTree → List Frame → Prop) : Prop where
  push : ∀ {t frames}, I t frames → ∀ f : Frame,
    I (childNode t frames f.callee).2 ({ f with node := (childNode t frames f.callee).1 } :: frames)
  ends : ∀ {t f outer}, I t (f :: outer) → ∀ level inclusive exclusive,
    I (t.modifyStatistics f.node (·.addCall level inclusive exclusive)) outer
  charge : ∀ {t caller outer}, I t (caller :: outer) → ∀ o observed callee,
    I t (CallStack.charge o observed callee caller :: outer)

namespace Kept

variable {I : CallTree → List Frame → Prop} {t : CallTree} {s : CallStack}

theorem restoreFrames
    (hI : Kept I)
    (h : I t [])
    (frames : List Frame) :
    I (Profile.restoreFrames t frames).2 (Profile.restoreFrames t frames).1 := by
  induction frames with
  | nil =>
      exact h
  | cons f outer ih =>
      exact hI.push ih f

theorem pop
    (hI : Kept I)
    (h : I t s.frames)
    (e : Event) :
    I (s.pop t e).2 (s.pop t e).1.frames := by
  obtain ⟨o, frames⟩ := s
  match frames, h with
  | [], h =>
      exact h
  | [f], h =>
      exact hI.ends h _ _ _
  | f :: caller :: rest, h =>
      simp only [CallStack.pop]
      exact hI.charge (hI.ends h _ _ _) _ _ _

theorem step
    (hI : Kept I)
    (h : I t s.frames)
    (e : Event) :
    I (s.step t e).2 (s.step t e).1.frames := by
  unfold CallStack.step
  split
  · exact hI.pop h e
  · exact hI.push h ⟨e.callee, e.timestamp, 0, _, 0, 0⟩

theorem steps
    (hI : Kept I)
    (h : I t s.frames)
    (events : List Event) :
    I (s.steps t events).2 (s.steps t events).1.frames := by
  induction events generalizing s t with
  | nil =>
      exact h
  | cons e rest ih =>
      exact ih (hI.step h e)

/-- **A batch** keeps what holds of the tree while no call is open, whatever calls are open. -/
theorem update
    (hI : Kept I)
    (h : I t [])
    (s : CallStack) (events : List Event) :
    I (s.update t events).2 (s.update t events).1.frames :=
  hI.steps (s := { s with frames := _ }) (hI.restoreFrames h s.frames) events

end Kept

/-! ## Paths of open calls -/

/-- The path of the innermost of open calls. -/
def framePath (frames : List Frame) : List UInt64 := shorten (frames.map (·.callee)).reverse

/-- Every open call has the node at its path. -/
inductive Placed (t : CallTree) : List Frame → Prop
  | nil : Placed t []
  | cons {f : Frame} {outer : List Frame} :
      t.Leads (framePath (f :: outer)) (some f.node) →
      Placed t outer →
      Placed t (f :: outer)

/-- What looking for the node at a path does to a tree. -/
structure FindsNode
    (t : CallTree) (path : List UInt64) (found : Nat × CallTree) : Prop where
  wellFormed : found.2.WellFormed
  leads : found.2.Leads path (some found.1)
  mono : ∀ {path' id}, t.Leads path' (some id) → found.2.Leads path' (some id)
  statistics : ∀ path', found.2.statisticsAt path' =
    if path' = path then some ((t.statisticsAt path').getD .zero) else t.statisticsAt path'

namespace Placed

variable {t t' : CallTree} {frames : List Frame}

/-- Open calls keep their places while no path is lost. -/
theorem mono
    (hlead : ∀ {path id}, t.Leads path (some id) → t'.Leads path (some id))
    (h : Placed t frames) :
    Placed t' frames := by
  induction h with
  | nil =>
      exact Placed.nil
  | cons hleads _ ih =>
      exact Placed.cons (hlead hleads) ih

/-- The node of the innermost open call, if there is one, is where its path leads. -/
theorem leads_head
    (h : Placed t frames) :
    t.Leads (framePath frames) (frames.head?.map (·.node)) := by
  cases h with
  | nil =>
      exact CallTree.Leads.root
  | cons hleads _ =>
      exact hleads

/-- **The node of a new call** is found or made at its path. -/
theorem findsNode
    (hwf : t.WellFormed)
    (h : Placed t frames)
    (f : Frame) :
    FindsNode t (framePath (f :: frames)) (childNode t frames f.callee) := by
  have hhead := h.leads_head
  have hpath : framePath (f :: frames) =
      if (frames.map (·.callee)).take 2 = [f.callee, f.callee] then framePath frames
      else framePath frames ++ [f.callee] :=
    shorten_reverse_cons f.callee (frames.map Frame.callee)
  by_cases hrun : (frames.map (·.callee)).take 2 = [f.callee, f.callee]
  · obtain ⟨node, hnode, hchild⟩ := childNode_of_run hrun
    rw [if_pos hrun] at hpath
    rw [hpath, hchild]
    rw [hnode] at hhead
    refine ⟨hwf, hhead, id, ?_⟩
    intro path'
    split
    next heq =>
      subst heq
      obtain ⟨s, hs⟩ := hwf.exists_statistics hhead
      simp [hs]
    next =>
      rfl
  · have hposition := hwf.isPosition hhead
    rw [if_neg hrun] at hpath
    rw [hpath, childNode_of_not_run hrun]
    exact ⟨hwf.entry hposition, CallTree.leads_entry hwf hhead,
      fun hlead => hlead.entry hposition, CallTree.statisticsAt_entry hwf hhead⟩

/-- **Open calls with one node** are those with one path. -/
theorem length_filter_node
    (hwf : t.WellFormed)
    (h : Placed t frames)
    {path : List UInt64} {node : Nat}
    (hpath : t.Leads path (some node)) :
    (frames.filter (·.node = node)).length = samePath path (frames.map (·.callee)) := by
  induction h with
  | nil =>
      rfl
  | @cons f outer hleads _ ih =>
      have hsame : f.node = node ↔ framePath (f :: outer) = path := by
        constructor
        · rintro rfl
          exact hwf.path_unique hleads hpath
        · rintro rfl
          exact Option.some.inj (hleads.position_unique hpath)
      have hframe : shorten (f.callee :: outer.map (·.callee)).reverse = framePath (f :: outer) := by
        rfl
      rw [List.map_cons, samePath, hframe, ← ih, List.filter_cons]
      by_cases heq : f.node = node
      · simp [heq, hsame.1 heq]
        omega
      · simp [heq, mt hsame.2 heq]

/-- A new call is placed in the tree that looking for its node gives, with the calls around it. -/
theorem push
    (hwf : t.WellFormed)
    (h : Placed t frames)
    (f : Frame) :
    Placed (childNode t frames f.callee).2
      ({ f with node := (childNode t frames f.callee).1 } :: frames) := by
  have hfinds := h.findsNode hwf f
  exact Placed.cons hfinds.leads (h.mono hfinds.mono)

theorem modifyStatistics
    (h : Placed t frames)
    (id : Nat) (g : Statistics → Statistics) :
    Placed (t.modifyStatistics id g) frames := by
  apply h.mono
  intro path id' hleads
  rwa [CallTree.leads_modifyStatistics]

theorem charge
    {caller : Frame} {outer : List Frame}
    (h : Placed t (caller :: outer))
    (o : Overhead) (observed : Int) (callee : Frame) :
    Placed t (CallStack.charge o observed callee caller :: outer) := by
  cases h with
  | cons hleads houter =>
      exact Placed.cons hleads houter

end Placed

/-- Replaying keeps open calls in their places in a well-formed tree. -/
theorem kept_placed :
    Kept fun t frames => t.WellFormed ∧ Placed t frames where
  push := fun h f => ⟨(h.2.findsNode h.1 f).wellFormed, h.2.push h.1 f⟩
  ends := by
    rintro t f outer ⟨hwf, hplaced⟩ level inclusive exclusive
    cases hplaced with
    | cons _ houter =>
        exact ⟨hwf.modifyStatistics _ _, houter.modifyStatistics _ _⟩
  charge := fun h o observed callee => ⟨h.1, h.2.charge o observed callee⟩

end CallProfiler.Profile
