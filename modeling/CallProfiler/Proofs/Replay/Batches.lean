import CallProfiler.Proofs.Replay.Placement

/-!
# Batches of events

A batch is replayed in two parts: the nodes of the open calls are looked up again, then the events
follow.  The lookup is there for a tree that was cleared or replaced.  In the tree that the last batch
left behind it finds every node where it was and makes none, also the shared nodes of folded
recursion, so it does not matter how events are cut into batches.

**Main statements.**
* `settled_update`: a batch leaves nothing to look up again.
* `update_batches`: batches amount to their events in one.
-/

namespace CallProfiler.Profile

namespace CallTree

/-- Every link leads to a node. -/
def LinksExist (t : CallTree) : Prop :=
  ∀ parent callee id, t.child? parent callee = some id → id < t.size

theorem WellFormed.linksExist
    {t : CallTree}
    (hwf : t.WellFormed) :
    t.LinksExist :=
  fun _ _ _ h => hwf.linked_lt h

/-- Another tree has all links and as many nodes. -/
structure Extends (t t' : CallTree) : Prop where
  child? : ∀ {parent callee id}, t.child? parent callee = some id →
    t'.child? parent callee = some id
  size_le : t.size ≤ t'.size

section Entry

variable {t : CallTree} {parent : Option Nat} {callee : UInt64}

theorem Extends.entry
    (hparent : t.IsPosition parent) :
    t.Extends (t.entry parent callee).2 := by
  refine ⟨child?_entry_of_child? hparent, ?_⟩
  cases h : t.child? parent callee with
  | some id =>
      exact Nat.le_of_eq (by rw [entry_of_child? h])
  | none =>
      rw [size_entry_of_child?_none h]
      exact Nat.le_succ _

theorem LinksExist.entry
    (hlinks : t.LinksExist)
    (hparent : t.IsPosition parent) :
    (t.entry parent callee).2.LinksExist := by
  intro parent' callee' id h
  have hextends : t.Extends (t.entry parent callee).2 := Extends.entry hparent
  rcases child?_entry_cases hparent h with hold | ⟨-, -, rfl, hnone⟩
  · exact Nat.lt_of_lt_of_le (hlinks _ _ _ hold) hextends.size_le
  · rw [size_entry_of_child?_none hnone]
    exact Nat.lt_succ_self _

/-- Making a node makes the tree larger, so nothing is made only if the node is there. -/
theorem child?_of_entry_eq
    {id : Nat}
    (h : t.entry parent callee = (id, t)) :
    t.child? parent callee = some id := by
  cases hchild : t.child? parent callee with
  | some id' =>
      rw [entry_of_child? hchild, Prod.mk.injEq] at h
      rw [h.1]
  | none =>
      have hsize := size_entry_of_child?_none hchild
      rw [h] at hsize
      exact absurd hsize (Nat.ne_of_lt (Nat.lt_succ_self _))

end Entry

theorem extends_modifyStatistics
    (t : CallTree) (id : Nat) (f : Statistics → Statistics) :
    t.Extends (t.modifyStatistics id f) := by
  refine ⟨?_, ?_⟩
  · intro parent callee child h
    rw [child?_modifyStatistics]
    exact h
  · exact Nat.le_of_eq (size_modifyStatistics t id f).symm

theorem LinksExist.modifyStatistics
    {t : CallTree}
    (hlinks : t.LinksExist)
    (id : Nat) (f : Statistics → Statistics) :
    (t.modifyStatistics id f).LinksExist := by
  intro parent callee child h
  rw [child?_modifyStatistics] at h
  rw [size_modifyStatistics]
  exact hlinks _ _ _ h

end CallTree

open CallTree

/-- Looking the node of any open call up again finds it where it is and makes none. -/
inductive Settled (t : CallTree) : List Frame → Prop
  | nil : Settled t []
  | cons {f : Frame} {outer : List Frame} :
      childNode t outer f.callee = (f.node, t) →
      f.node < t.size →
      Settled t outer →
      Settled t (f :: outer)

namespace Settled

variable {t t' : CallTree} {frames : List Frame}

theorem isPosition_head
    (h : Settled t frames) :
    t.IsPosition (frames.head?.map (·.node)) := by
  cases h with
  | nil =>
      rintro p ⟨⟩
  | cons _ hlt _ =>
      rintro p ⟨⟩
      exact hlt

/-- A call that is found in a tree is found in every extension. -/
theorem childNode_extends
    (hext : t.Extends t')
    {callee : UInt64} {node : Nat}
    (h : childNode t frames callee = (node, t)) :
    childNode t' frames callee = (node, t') := by
  by_cases hrun : (frames.map (·.callee)).take 2 = [callee, callee]
  · obtain ⟨shared, -, hchild⟩ := childNode_of_run hrun
    rw [hchild, Prod.mk.injEq] at h
    rw [hchild, h.1]
  · rw [childNode_of_not_run hrun] at h ⊢
    exact entry_of_child? (hext.child? (child?_of_entry_eq h))

theorem extend
    (hext : t.Extends t')
    (h : Settled t frames) :
    Settled t' frames := by
  induction h with
  | nil =>
      exact Settled.nil
  | cons hchild hlt _ ih =>
      exact Settled.cons (childNode_extends hext hchild) (Nat.lt_of_lt_of_le hlt hext.size_le) ih

/-- **A new call** is settled in the tree that looking for its node gives, with the calls around it. -/
theorem push
    (hlinks : t.LinksExist)
    (h : Settled t frames)
    (f : Frame) :
    (childNode t frames f.callee).2.LinksExist ∧
      Settled (childNode t frames f.callee).2
        ({ f with node := (childNode t frames f.callee).1 } :: frames) := by
  by_cases hrun : (frames.map (·.callee)).take 2 = [f.callee, f.callee]
  · obtain ⟨node, hhead, hchild⟩ := childNode_of_run hrun
    have hlt : node < t.size := h.isPosition_head node hhead
    rw [hchild]
    exact ⟨hlinks, Settled.cons (hchild t) hlt h⟩
  · have hposition := h.isPosition_head
    let found := t.entry (frames.head?.map (·.node)) f.callee
    have hself : found.2.child? (frames.head?.map (·.node)) f.callee = some found.1 :=
      child?_entry_self hposition
    have hlinks' : found.2.LinksExist := hlinks.entry hposition
    rw [childNode_of_not_run hrun]
    refine ⟨hlinks', Settled.cons ?_ (hlinks' _ _ _ hself) (h.extend (Extends.entry hposition))⟩
    rw [childNode_of_not_run hrun]
    exact entry_of_child? hself

/-- What a caller is charged with does not matter. -/
theorem charge
    {caller : Frame} {outer : List Frame}
    (h : Settled t (caller :: outer))
    (o : Overhead) (observed : Int) (callee : Frame) :
    Settled t (CallStack.charge o observed callee caller :: outer) := by
  cases h with
  | cons hchild hlt houter =>
      exact Settled.cons hchild hlt houter

/-- Open calls that are settled stay as they are, and so does the tree. -/
theorem restoreFrames_eq
    (h : Settled t frames) :
    restoreFrames t frames = (frames, t) := by
  induction h with
  | nil =>
      rfl
  | cons hchild _ _ ih =>
      simp only [restoreFrames, ih, hchild]

end Settled

/-- Replaying keeps open calls settled, in a tree whose links lead to nodes. -/
theorem kept_settled :
    Kept fun t frames => t.LinksExist ∧ Settled t frames where
  push := fun h f => h.2.push h.1 f
  ends := by
    rintro t f outer ⟨hlinks, hsettled⟩ level inclusive exclusive
    cases hsettled with
    | cons _ _ houter =>
        exact ⟨hlinks.modifyStatistics _ _, houter.extend (extends_modifyStatistics _ _ _)⟩
  charge := fun h o observed callee => ⟨h.1, h.2.charge o observed callee⟩

namespace CallStack

variable {s : CallStack} {t : CallTree}

/-- **After a batch** nothing is left to look up again, whatever nodes the open calls had before. -/
theorem settled_update
    (hlinks : t.LinksExist)
    (s : CallStack) (events : List Event) :
    Settled (s.update t events).2 (s.update t events).1.frames :=
  (kept_settled.update ⟨hlinks, Settled.nil⟩ s events).2

theorem steps_append
    (s : CallStack) (t : CallTree) (events events' : List Event) :
    s.steps t (events ++ events') = (s.steps t events).1.steps (s.steps t events).2 events' := by
  induction events generalizing s t with
  | nil =>
      rfl
  | cons e rest ih =>
      exact ih _ _

/-- Nothing is looked up for calls that are settled. -/
theorem update_of_settled
    (h : Settled t s.frames)
    (events : List Event) :
    s.update t events = s.steps t events := by
  unfold update
  rw [h.restoreFrames_eq]

theorem update_append
    (hlinks : t.LinksExist)
    (s : CallStack) (events events' : List Event) :
    (s.update t events).1.update (s.update t events).2 events' = s.update t (events ++ events') := by
  rw [update_of_settled (settled_update hlinks s events)]
  exact (steps_append _ _ events events').symm

/-- Replays batches one after the other. -/
def updates (s : CallStack) (t : CallTree) (batches : List (List Event)) : CallStack × CallTree :=
  batches.foldl (fun (s, t) events => s.update t events) (s, t)

theorem updates_cons
    (s : CallStack) (t : CallTree) (events : List Event) (rest : List (List Event)) :
    s.updates t (events :: rest) = (s.update t events).1.updates (s.update t events).2 rest := by
  rfl

theorem updates_eq_update
    (hlinks : t.LinksExist)
    (s : CallStack) (events : List Event) (rest : List (List Event)) :
    s.updates t (events :: rest) = s.update t (events :: rest).flatten := by
  induction rest generalizing events with
  | nil =>
      simp [updates]
  | cons events' rest ih =>
      calc s.updates t (events :: events' :: rest)
          = s.updates t ((events ++ events') :: rest) := by
            rw [updates_cons, updates_cons, updates_cons, update_append hlinks]
        _ = s.update t ((events ++ events') :: rest).flatten := ih (events ++ events')
        _ = s.update t (events :: events' :: rest).flatten := by
            rw [List.flatten_cons, List.flatten_cons, List.flatten_cons, List.append_assoc]

/-- From nothing, batches amount to their events, also if there is no batch. -/
theorem updates_empty
    (o : Overhead) (batches : List (List Event)) :
    (CallStack.empty o).updates .empty batches = (CallStack.empty o).steps .empty batches.flatten := by
  cases batches with
  | nil =>
      rfl
  | cons events rest =>
      exact updates_eq_update WellFormed.empty.linksExist _ events rest

/-- **How events are cut into batches does not matter.**  From any open calls, and onto any tree whose
links lead to nodes, two batches give the tree, with all node numbers, and the open calls that one
batch of all their events gives; and so do any batches, as long as there is one. -/
theorem update_batches
    (s : CallStack) (t : CallTree)
    (hlinks : t.LinksExist) :
    (∀ events events', (s.update t events).1.update (s.update t events).2 events' =
      s.update t (events ++ events')) ∧
    ∀ batches, batches ≠ [] → s.updates t batches = s.update t batches.flatten := by
  refine ⟨update_append hlinks s, ?_⟩
  intro batches hne
  cases batches with
  | nil =>
      exact absurd rfl hne
  | cons events rest =>
      exact updates_eq_update hlinks s events rest

/-- Three open calls of one function, entered while another tree was in use, are cut off in the middle
of a fourth. -/
theorem update_batches_folded :
    let t := (CallTree.empty.entry none 7).2
    let s : CallStack := ⟨⟨1, 2⟩, [⟨7, 30, 9, 1, 0, 0⟩, ⟨7, 20, 9, 0, 4, 3⟩, ⟨7, 10, 5, 0, 0, 0⟩]⟩
    let batches : List (List Event) := [[⟨40, 7⟩], [.exit 50, .exit 60], [⟨70, 8⟩]]
    t.LinksExist ∧ batches ≠ [] ∧ s.updates t batches = s.update t batches.flatten ∧
      (s.updates t batches).2.size = 3 ∧
      (s.updates t batches).1.frames.map (fun f => (f.callee, f.node, f.calleesTime)) =
        [(8, 2, 0), (7, 1, 36), (7, 0, 0)] := by
  intro t s batches
  have hlinks : t.LinksExist := by
    refine LinksExist.entry ?_ (by rintro p ⟨⟩)
    intro parent callee id h
    cases parent <;> cases h
  have hne : batches ≠ [] := by decide
  exact ⟨hlinks, hne, (update_batches s t hlinks).2 batches hne, by decide, by decide⟩

end CallStack

end CallProfiler.Profile
