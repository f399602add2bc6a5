import Mathlib.Algebra.Order.BigOperators.Group.List
import Mathlib.Algebra.Order.Group.Nat
import CallProfiler.Proofs.CallTree.Linkage
import CallProfiler.Proofs.Replay.Batches

/-!
# Time is shared out among callers and callees

When no call is open, the inclusive time of a node is its exclusive time and the inclusive times of its
callees.  While calls are open a node may be ahead: a call that ended is accounted below its caller
before the caller is.  What it is ahead by is what the open calls with that node have been charged, so
the running sums of the stack and the statistics of the tree are tied together at every moment.  The
inclusive time of a node that folds recursion is that of its outermost calls, and its exclusive time
that of all.  Sums wrap around where they leave their bounds, so times are compared as 64 bits hold them.

**Main statements.**
* `Balanced.step`: replaying an event keeps each node ahead by what its open calls were charged.
* `inclusive_time_balances`: the law for trees with no call open.
-/

namespace CallProfiler.Profile

/-- What one weight gets more, a sum gets more as often as it counts that weight. -/
theorem sum_map_add_at
    {ι M : Type} [DecidableEq ι] [AddCommMonoid M]
    (l : List ι) (weight : ι → M) (i : ι) (more : M) :
    (l.map fun j => weight j + if j = i then more else 0).sum =
      (l.map weight).sum + l.count i • more := by
  rw [List.sum_map_add]
  congr 1
  induction l with
  | nil =>
      simp
  | cons j rest ih =>
      rw [List.map_cons, List.sum_cons, ih, List.count_cons]
      by_cases hj : j = i
      · simp [hj, succ_nsmul, add_comm]
      · simp [hj]

/-- Sums of numbers that are held alike are held alike. -/
theorem wrap_sum_map_congr
    {ι : Type}
    {l : List ι} {weight weight' : ι → Int}
    (h : ∀ i ∈ l, wrap (weight i) = wrap (weight' i)) :
    wrap (l.map weight).sum = wrap (l.map weight').sum := by
  induction l with
  | nil =>
      rfl
  | cons i rest ih =>
      have hi := wrap_eq_wrap_iff.1 (h i List.mem_cons_self)
      have hrest := wrap_eq_wrap_iff.1 (ih fun j hj => h j (List.mem_cons_of_mem i hj))
      rw [List.map_cons, List.sum_cons, List.map_cons, List.sum_cons, wrap_eq_wrap_iff]
      omega

namespace CallTree

/-- The inclusive times of the nodes linked at a position. -/
def inclusiveBelow (t : CallTree) (parent : Option Nat) : Int :=
  ((t.linkedTo parent).map fun id => (t.statisticsOf id).inclusiveTime).sum

/-- How far the exclusive time of a node and the inclusive times of its callees are ahead of its
inclusive time. -/
def ahead (t : CallTree) (id : Nat) : Int :=
  (t.statisticsOf id).exclusiveTime + t.inclusiveBelow (some id) - (t.statisticsOf id).inclusiveTime

/-- The number of calls accounted in all nodes. -/
def callsAccounted (t : CallTree) : Nat :=
  ((List.range t.size).map fun id => (t.statisticsOf id).timesCalled).sum

section Entry

variable {t : CallTree} {parent : Option Nat} {callee : UInt64}

/-- A node that is made has no time yet. -/
theorem ahead_entry
    (hparent : t.IsPosition parent)
    (id : Nat) :
    (t.entry parent callee).2.ahead id = t.ahead id := by
  have hbelow : (t.entry parent callee).2.inclusiveBelow (some id) = t.inclusiveBelow (some id) := by
    unfold inclusiveBelow
    simp only [statisticsOf_entry hparent]
    cases hold : t.child? parent callee with
    | some child =>
        rw [entry_of_child? hold]
    | none =>
        obtain ⟨hat, hother⟩ := LinkedOnce.perm_linkedTo_entry hold hparent
        by_cases hid : some id = parent
        · rw [hid, (hat.map _).sum_eq, List.map_cons, List.sum_cons,
            statisticsOf_eq_zero (Nat.le_refl _)]
          exact Int.zero_add _
        · rw [hother _ hid]
  unfold ahead
  rw [hbelow, statisticsOf_entry hparent]

theorem callsAccounted_entry
    (hparent : t.IsPosition parent) :
    (t.entry parent callee).2.callsAccounted = t.callsAccounted := by
  unfold callsAccounted
  simp only [statisticsOf_entry hparent]
  cases hold : t.child? parent callee with
  | some child =>
      rw [entry_of_child? hold]
  | none =>
      rw [size_entry_of_child?_none hold, List.range_succ, List.map_append, List.sum_append,
        List.map_singleton, List.sum_singleton, statisticsOf_eq_zero (Nat.le_refl _)]
      rfl

end Entry

section AddCall

variable {t : CallTree} {node : Nat}

/-- A call accounted at a node, as far as the times of all nodes are concerned: its own, and that of
its caller if the call counts as inclusive time. -/
theorem ahead_addCall
    (hnode : node < t.size)
    (level : Nat) (inclusive exclusive : Int) (id : Nat) :
    wrap ((t.modifyStatistics node (·.addCall level inclusive exclusive)).ahead id) =
      wrap (t.ahead id +
        (if id = node then exclusive - (if level = 0 then inclusive else 0) else 0) +
        (t.linkedTo (some id)).count node • (if level = 0 then inclusive else 0)) := by
  have hstatistics := statisticsOf_modifyStatistics hnode (·.addCall level inclusive exclusive)
  have hlinked : ∀ parent,
      (t.modifyStatistics node (·.addCall level inclusive exclusive)).linkedTo parent =
        t.linkedTo parent := by
    intro parent
    rw [linkedTo, linksOf_modifyStatistics]
    rfl
  have hinclusive : ∀ i,
      wrap ((t.modifyStatistics node
          (·.addCall level inclusive exclusive)).statisticsOf i).inclusiveTime =
        wrap ((t.statisticsOf i).inclusiveTime +
          if i = node then (if level = 0 then inclusive else 0) else 0) := by
    intro i
    rw [hstatistics]
    by_cases hi : i = node
    · by_cases hlevel : level = 0 <;> simp [hi, hlevel, Statistics.addCall]
    · simp [hi]
  have hexclusive :
      wrap ((t.modifyStatistics node
          (·.addCall level inclusive exclusive)).statisticsOf id).exclusiveTime =
        wrap ((t.statisticsOf id).exclusiveTime + if id = node then exclusive else 0) := by
    rw [hstatistics]
    by_cases hid : id = node <;> simp [hid, Statistics.addCall]
  have hbelow : wrap ((t.modifyStatistics node
          (·.addCall level inclusive exclusive)).inclusiveBelow (some id)) =
      wrap (t.inclusiveBelow (some id) +
        (t.linkedTo (some id)).count node • (if level = 0 then inclusive else 0)) := by
    unfold inclusiveBelow
    rw [hlinked, ← sum_map_add_at]
    exact wrap_sum_map_congr fun i _ => hinclusive i
  have hown := hinclusive id
  rw [wrap_eq_wrap_iff] at hown hexclusive hbelow ⊢
  unfold ahead
  by_cases hid : id = node
  · simp only [hid, if_true] at hown hexclusive hbelow ⊢
    omega
  · simp only [hid, if_false] at hown hexclusive hbelow ⊢
    omega

theorem timesCalled_le_callsAccounted
    (hnode : node < t.size) :
    (t.statisticsOf node).timesCalled ≤ t.callsAccounted := by
  have hmem : (t.statisticsOf node).timesCalled ∈
      (List.range t.size).map fun id => (t.statisticsOf id).timesCalled :=
    List.mem_map.2 ⟨node, List.mem_range.2 hnode, rfl⟩
  exact List.single_le_sum (fun _ _ => Nat.zero_le _) _ hmem

theorem callsAccounted_addCall
    (hnode : node < t.size)
    (hcalls : t.callsAccounted + 1 < 2 ^ 64)
    (level : Nat) (inclusive exclusive : Int) :
    (t.modifyStatistics node (·.addCall level inclusive exclusive)).callsAccounted =
      t.callsAccounted + 1 := by
  have hbound := timesCalled_le_callsAccounted hnode
  have htimes : ∀ i,
      ((t.modifyStatistics node (·.addCall level inclusive exclusive)).statisticsOf i).timesCalled =
        (t.statisticsOf i).timesCalled + if i = node then 1 else 0 := by
    intro i
    rw [statisticsOf_modifyStatistics hnode]
    by_cases hi : i = node
    · simp only [hi, if_true, Statistics.addCall]
      omega
    · simp [hi]
  have hone : (List.range t.size).count node = 1 :=
    List.count_eq_one_of_mem List.nodup_range (List.mem_range.2 hnode)
  unfold callsAccounted
  rw [size_modifyStatistics]
  simp only [htimes]
  rw [sum_map_add_at, hone, one_nsmul]

end AddCall

end CallTree

/-! ## Open calls -/

/-- An open call either has a node of its own below that of its caller, at level zero, or shares the
node of its caller at a higher level. -/
inductive Nested (t : CallTree) : List Frame → Prop
  | nil : Nested t []
  | own {f : Frame} {outer : List Frame} :
      t.child? (outer.head?.map (·.node)) f.callee = some f.node →
      f.level = 0 →
      Nested t outer →
      Nested t (f :: outer)
  | shared {f caller : Frame} {outer : List Frame} :
      f.node = caller.node →
      f.level ≠ 0 →
      Nested t (caller :: outer) →
      Nested t (f :: caller :: outer)

/-- What the open calls with a node have been charged with as time, less what they have been charged
with as overhead. -/
def outstanding (frames : List Frame) (node : Nat) : Int :=
  (frames.map fun f => if f.node = node then f.calleesTime - f.calleesOverhead else 0).sum

theorem outstanding_cons
    (f : Frame) (outer : List Frame) (node : Nat) :
    outstanding (f :: outer) node =
      (if f.node = node then f.calleesTime - f.calleesOverhead else 0) + outstanding outer node := by
  rw [outstanding, List.map_cons, List.sum_cons]
  rfl

/-- Of what a caller is charged with, the time is ahead by what the call counts as inclusive time. -/
theorem outstanding_charge
    (o : Overhead) (observed : Int) (f caller : Frame)
    (outer : List Frame) (node : Nat) :
    wrap (outstanding (CallStack.charge o observed f caller :: outer) node) =
      wrap (outstanding (caller :: outer) node +
        if caller.node = node then observed - f.calleesOverhead else 0) := by
  rw [outstanding_cons, outstanding_cons, wrap_eq_wrap_iff]
  simp only [CallStack.charge, wrap_add_wrap]
  have htime := dvd_wrap_sub (caller.calleesTime + (observed + o.total))
  have hoverhead := dvd_wrap_sub (caller.calleesOverhead + (o.total + f.calleesOverhead))
  split
  · omega
  · omega

namespace Nested

variable {t t' : CallTree} {frames : List Frame}

theorem mono
    (hchild : ∀ {parent callee id}, t.child? parent callee = some id →
      t'.child? parent callee = some id)
    (h : Nested t frames) :
    Nested t' frames := by
  induction h with
  | nil =>
      exact Nested.nil
  | own hlink hlevel _ ih =>
      exact Nested.own (hchild hlink) hlevel ih
  | shared hnode hlevel _ ih =>
      exact Nested.shared hnode hlevel ih

/-- What a caller is charged with does not matter. -/
theorem charge
    {caller : Frame} {outer : List Frame}
    (h : Nested t (caller :: outer))
    (o : Overhead) (observed : Int) (callee : Frame) :
    Nested t (CallStack.charge o observed callee caller :: outer) := by
  cases h with
  | own hlink hlevel houter =>
      exact Nested.own hlink hlevel houter
  | shared hnode hlevel houter =>
      exact Nested.shared hnode hlevel houter

theorem isPosition_head
    (hwf : t.WellFormed)
    (h : Nested t frames) :
    t.IsPosition (frames.head?.map (·.node)) := by
  induction h with
  | nil =>
      rintro p ⟨⟩
  | own hlink _ _ _ =>
      rintro p ⟨⟩
      exact hwf.linked_lt hlink
  | shared hnode _ _ ih =>
      rintro p ⟨⟩
      show Frame.node _ < t.size
      rw [hnode]
      exact ih _ rfl

/-- No open call has a node made after that of the innermost. -/
theorem node_le_head
    (hwf : t.WellFormed)
    (h : Nested t frames)
    {f g : Frame}
    (hf : f ∈ frames.head?)
    (hg : g ∈ frames) :
    g.node ≤ f.node := by
  induction h generalizing f with
  | nil =>
      cases hg
  | @own first outer hlink _ _ ih =>
      obtain rfl : first = f := Option.some.inj hf
      rcases List.mem_cons.1 hg with rfl | hg
      · exact Nat.le_refl _
      · cases outer with
        | nil =>
            cases hg
        | cons caller rest =>
            exact Nat.le_trans (ih rfl hg) (Nat.le_of_lt (hwf.forward hlink))
  | @shared first caller outer hnode _ _ ih =>
      obtain rfl : first = f := Option.some.inj hf
      rcases List.mem_cons.1 hg with rfl | hg
      · exact Nat.le_refl _
      · exact hnode ▸ ih rfl hg

/-- A node below that of the innermost open call is the node of no open call: it lies beyond that of
the caller, and so beyond those of all. -/
theorem length_filter_child
    (hwf : t.WellFormed)
    (h : Nested t frames)
    {callee : UInt64} {node : Nat}
    (hchild : t.child? (frames.head?.map (·.node)) callee = some node) :
    (frames.filter (·.node = node)).length = 0 := by
  rw [List.length_eq_zero_iff, List.filter_eq_nil_iff]
  intro g hg hsame
  cases frames with
  | nil =>
      cases hg
  | cons caller rest =>
      have hle := h.node_le_head hwf (f := caller) rfl hg
      have hlt := hwf.forward hchild
      rw [of_decide_eq_true hsame] at hle
      exact Nat.lt_irrefl _ (Nat.lt_of_lt_of_le hlt hle)

end Nested

/-! ## One event -/

/-- What holds of a stack and a tree at every moment of a replay with so many calls entered. -/
structure CallStack.Balanced (s : CallStack) (t : CallTree) (entered : Nat) : Prop where
  wellFormed : t.WellFormed
  linkedOnce : t.LinkedOnce
  nested : Nested t s.frames
  ahead : ∀ id, wrap (t.ahead id) = wrap (outstanding s.frames id)
  sound : ∀ id, (t.statisticsOf id).Sound
  calls : entered < 2 ^ 64 → t.callsAccounted + s.frames.length = entered

namespace CallStack

variable {s : CallStack} {t : CallTree} {entered : Nat}

theorem balanced_empty
    (o : Overhead) :
    (CallStack.empty o).Balanced .empty 0 where
  wellFormed := CallTree.WellFormed.empty
  linkedOnce := CallTree.LinkedOnce.empty
  nested := Nested.nil
  ahead := fun _ => rfl
  sound := fun _ => Statistics.sound_zero
  calls := fun _ => rfl

/-- Entering a call keeps the balance: the call has been charged with nothing. -/
theorem Balanced.push
    (h : s.Balanced t entered)
    (e : Event) :
    (s.push t e).1.Balanced (s.push t e).2 (entered + 1) := by
  obtain ⟨hwf, hlinked, hnested, hahead, hsound, hcalls⟩ := h
  have hposition := hnested.isPosition_head hwf
  have hnothing : ∀ node level id,
      outstanding (⟨e.callee, e.timestamp, node, level, 0, 0⟩ :: s.frames) id =
        outstanding s.frames id := by
    intro node level id
    rw [outstanding_cons]
    simp
  by_cases hrun : (s.frames.map (·.callee)).take 2 = [e.callee, e.callee]
  · obtain ⟨node, hnode, hchild⟩ := childNode_of_run hrun
    unfold CallStack.push
    rw [hchild]
    obtain ⟨o, frames⟩ := s
    cases frames with
    | nil =>
        cases hnode
    | cons caller rest =>
        obtain rfl : caller.node = node := Option.some.inj hnode
        refine ⟨hwf, hlinked, Nested.shared rfl ?_ hnested, ?_, hsound, ?_⟩
        · have hdeepest : deepestLevel ≠ 0 := by decide
          simp [hdeepest]
        · intro id
          rw [hahead, hnothing]
        · intro hbound
          have hbefore := hcalls (by omega)
          simp only [List.length_cons] at hbefore ⊢
          omega
  · let found := t.entry (s.frames.head?.map (·.node)) e.callee
    have hself : found.2.child? (s.frames.head?.map (·.node)) e.callee = some found.1 :=
      CallTree.child?_entry_self hposition
    have hwf' : found.2.WellFormed := hwf.entry hposition
    have hnested' : Nested found.2 s.frames :=
      hnested.mono (CallTree.child?_entry_of_child? hposition)
    unfold CallStack.push
    rw [childNode_of_not_run hrun]
    have hlevel := congrArg (min · deepestLevel) (hnested'.length_filter_child hwf' hself)
    refine ⟨hwf', hlinked.entry hposition, Nested.own hself hlevel hnested', ?_, ?_, ?_⟩
    · intro id
      rw [CallTree.ahead_entry hposition, hahead, hnothing]
    · intro id
      rw [CallTree.statisticsOf_entry hposition]
      exact hsound id
    · intro hbound
      rw [CallTree.callsAccounted_entry hposition, List.length_cons, ← hcalls (by omega)]
      omega

/-- A call that ends moves what its node was ahead by on its account to the node of its caller. -/
theorem ahead_pop
    {f : Frame} {outer : List Frame}
    (hwf : t.WellFormed)
    (hlinked : t.LinkedOnce)
    (hnested : Nested t (f :: outer))
    (observed : Int) (id : Nat) :
    wrap ((t.modifyStatistics f.node (·.addCall f.level (wrap (observed - f.calleesOverhead))
        (wrap (observed - f.calleesTime)))).ahead id) =
      wrap (t.ahead id - (if f.node = id then f.calleesTime - f.calleesOverhead else 0) +
        (if outer.head?.map (·.node) = some id then observed - f.calleesOverhead else 0)) := by
  have hnode : f.node < t.size := hnested.isPosition_head hwf _ rfl
  have hinclusive := dvd_wrap_sub (observed - f.calleesOverhead)
  have hexclusive := dvd_wrap_sub (observed - f.calleesTime)
  rw [CallTree.ahead_addCall hnode, wrap_eq_wrap_iff]
  cases hnested with
  | own hlink hlevel houter =>
      rw [hlinked.count_linkedTo (houter.isPosition_head hwf) hlink (some id)]
      simp only [hlevel, if_true, eq_comm (a := id), eq_comm (a := some id)]
      by_cases hid : f.node = id
      · by_cases hcaller : outer.head?.map (·.node) = some id
        · simp only [hid, hcaller, if_true, one_nsmul]
          omega
        · simp only [hid, hcaller, if_true, if_false, zero_nsmul]
          omega
      · by_cases hcaller : outer.head?.map (·.node) = some id
        · simp only [hid, hcaller, if_true, if_false, one_nsmul]
          omega
        · simp only [hid, hcaller, if_false, zero_nsmul]
          omega
  | @shared _ caller rest hsame hlevel houter =>
      have hhead : (caller :: rest).head?.map (·.node) = some f.node := congrArg some hsame.symm
      rw [hhead]
      simp only [hlevel, if_false, nsmul_zero, eq_comm (a := id), Option.some.injEq]
      by_cases hid : f.node = id
      · simp only [hid, if_true]
        omega
      · simp only [hid, if_false]
        omega

/-- Leaving a call keeps the balance. -/
theorem Balanced.pop
    (h : s.Balanced t entered)
    (e : Event) :
    (s.pop t e).1.Balanced (s.pop t e).2 entered := by
  obtain ⟨hwf, hlinked, hnested, hahead, hsound, hcalls⟩ := h
  obtain ⟨o, frames⟩ := s
  cases frames with
  | nil =>
      exact ⟨hwf, hlinked, hnested, hahead, hsound, hcalls⟩
  | cons f outer =>
      have hnode : f.node < t.size := hnested.isPosition_head hwf _ rfl
      let observed := wrap (elapsed f.entered e.timestamp - o.inner)
      let t' := t.modifyStatistics f.node (·.addCall f.level (wrap (observed - f.calleesOverhead))
        (wrap (observed - f.calleesTime)))
      have hwf' : t'.WellFormed := hwf.modifyStatistics _ _
      have hlinked' : t'.LinkedOnce := hlinked.modifyStatistics _ _
      have hmoved := ahead_pop hwf hlinked hnested observed
      have hsound' : ∀ id, (t'.statisticsOf id).Sound := by
        intro id
        rw [CallTree.statisticsOf_modifyStatistics hnode]
        split
        · exact (hsound id).addCall _ _ _
        · exact hsound id
      have hcalls' : entered < 2 ^ 64 → t'.callsAccounted + outer.length = entered := by
        intro hbound
        have hbefore := hcalls hbound
        rw [List.length_cons] at hbefore
        rw [CallTree.callsAccounted_addCall hnode (by omega)]
        omega
      have houter : Nested t' outer := by
        have hbefore : Nested t outer := by
          cases hnested with
          | own _ _ houter => exact houter
          | shared _ _ houter => exact houter
        apply hbefore.mono
        intro parent callee id hchild
        rwa [CallTree.child?_modifyStatistics]
      cases outer with
      | nil =>
          have hpop : CallStack.pop ⟨o, [f]⟩ t e = (⟨o, []⟩, t') := rfl
          rw [hpop]
          refine ⟨hwf', hlinked', Nested.nil, ?_, hsound', hcalls'⟩
          intro id
          have hbefore := wrap_eq_wrap_iff.1 (hahead id)
          refine (hmoved id).trans (wrap_eq_wrap_iff.2 ?_)
          rw [outstanding_cons] at hbefore
          simp only [List.head?_nil, Option.map_none, reduceCtorEq, if_false]
          omega
      | cons caller rest =>
          have hpop : CallStack.pop ⟨o, f :: caller :: rest⟩ t e =
              (⟨o, charge o observed f caller :: rest⟩, t') := rfl
          rw [hpop]
          refine ⟨hwf', hlinked', houter.charge o observed f, ?_, hsound', hcalls'⟩
          intro id
          have hbefore := wrap_eq_wrap_iff.1 (hahead id)
          rw [outstanding_cons f] at hbefore
          refine (hmoved id).trans ?_
          rw [outstanding_charge, wrap_eq_wrap_iff]
          simp only [List.head?_cons, Option.map_some, Option.some.injEq]
          omega

/-- **Replaying an event** keeps each node ahead by what its open calls were charged. -/
theorem Balanced.step
    (h : s.Balanced t entered)
    (e : Event) :
    (s.step t e).1.Balanced (s.step t e).2 (entered + if e.isExit then 0 else 1) := by
  unfold CallStack.step
  split
  · exact h.pop e
  · exact h.push e

theorem Balanced.steps
    (h : s.Balanced t entered)
    (events : List Event) :
    (s.steps t events).1.Balanced (s.steps t events).2
      (entered + (events.filter (!·.isExit)).length) := by
  induction events generalizing s t entered with
  | nil =>
      exact h
  | cons e rest ih =>
      have hcount : entered + (if e.isExit then 0 else 1) + (rest.filter (!·.isExit)).length =
          entered + ((e :: rest).filter (!·.isExit)).length := by
        rw [List.filter_cons]
        by_cases hexit : e.isExit
        · simp [hexit]
        · simp only [hexit, Bool.false_eq_true, if_false, Bool.not_false, if_true, List.length_cons]
          omega
      rw [← hcount]
      exact ih (h.step e)

/-- No node is ahead when no call is open. -/
theorem Balanced.inclusiveTime_eq
    (h : s.Balanced t entered)
    (hclosed : s.frames = [])
    (id : Nat) :
    (t.statisticsOf id).inclusiveTime =
      wrap ((t.statisticsOf id).exclusiveTime + t.inclusiveBelow (some id)) := by
  have hahead : wrap (t.ahead id) = wrap 0 := by
    rw [h.ahead, hclosed]
    rfl
  rw [← wrap_of_fits (h.sound id).inclusiveTime]
  rw [wrap_eq_wrap_iff] at hahead ⊢
  unfold CallTree.ahead at hahead
  omega

/-- The inclusive time of every node is counted once above and once below, except for the roots. -/
theorem Balanced.sum_exclusiveTime
    (h : s.Balanced t entered)
    (hclosed : s.frames = []) :
    wrap ((List.range t.size).map fun id => (t.statisticsOf id).exclusiveTime).sum =
      wrap (t.inclusiveBelow none) := by
  have hbelow : wrap ((List.range t.size).map fun id => (t.statisticsOf id).inclusiveTime).sum =
      wrap (((List.range t.size).map fun id => (t.statisticsOf id).exclusiveTime).sum +
        ((List.range t.size).map fun id => t.inclusiveBelow (some id)).sum) := by
    rw [← List.sum_map_add]
    apply wrap_sum_map_congr
    intro id _
    rw [h.inclusiveTime_eq hclosed id, wrap_wrap]
  have habove : ((List.range t.size).map fun id => (t.statisticsOf id).inclusiveTime).sum =
      t.inclusiveBelow none + ((List.range t.size).map fun id => t.inclusiveBelow (some id)).sum :=
    h.linkedOnce.sum_nodes fun id => (t.statisticsOf id).inclusiveTime
  rw [habove] at hbelow
  rw [wrap_eq_wrap_iff] at hbelow ⊢
  omega

/-- **Time is shared out exactly.**  Let events, replayed from nothing in any batches and with any
overhead, leave no call open.  Then the inclusive time of every node is its exclusive time and the
inclusive times of its callees; so the exclusive times of all nodes add up to the inclusive times of
the roots; and the calls of all nodes add up to the calls that were entered.  Times are added up as 64
bits hold them, so the sums are the plain ones where they are within bounds; and no more calls are
entered than can be counted. -/
theorem inclusive_time_balances
    (o : Overhead) (batches : List (List Event))
    (hclosed : ((CallStack.empty o).updates .empty batches).1.depth = 0) :
    let t := ((CallStack.empty o).updates .empty batches).2
    let exclusives := (t.nodes.toList.map (·.statistics.exclusiveTime)).sum
    let roots := (t.roots.map fun link => (t.statisticsOf link.2).inclusiveTime).sum
    let entered := (batches.flatten.filter (!·.isExit)).length
    (∀ id node, t.node? id = some node →
      let parts := node.statistics.exclusiveTime +
        (node.callees.map fun link => (t.statisticsOf link.2).inclusiveTime).sum
      node.statistics.inclusiveTime = wrap parts ∧
        (Fits parts → node.statistics.inclusiveTime = parts)) ∧
    (wrap exclusives = wrap roots ∧ (Fits exclusives → Fits roots → exclusives = roots)) ∧
    (entered < 2 ^ 64 → (t.nodes.toList.map (·.statistics.timesCalled)).sum = entered) := by
  intro t exclusives roots entered
  have hbalanced : ((CallStack.empty o).updates .empty batches).1.Balanced
      ((CallStack.empty o).updates .empty batches).2
      (0 + (batches.flatten.filter (!·.isExit)).length) := by
    rw [updates_empty]
    exact (balanced_empty o).steps batches.flatten
  have hframes := List.length_eq_zero_iff.1 hclosed
  have hlinks : ∀ links : Links,
      (links.map fun link => (t.statisticsOf link.2).inclusiveTime) =
        (links.map (·.2)).map fun id => (t.statisticsOf id).inclusiveTime := by
    intro links
    rw [List.map_map]
    rfl
  refine ⟨?_, ?_, ?_⟩
  · intro id node hnode parts
    have hstatistics : t.statisticsOf id = node.statistics := by
      simp [CallTree.statisticsOf, hnode]
    have hlinked : t.linkedTo (some id) = node.callees.map (·.2) := by
      have hthere : t.nodes[id]? = some node := hnode
      simp [CallTree.linkedTo, CallTree.linksOf, hthere]
    have hheld : node.statistics.inclusiveTime = wrap parts := by
      unfold parts
      rw [hlinks, ← hlinked, ← hstatistics]
      exact hbalanced.inclusiveTime_eq hframes id
    refine ⟨hheld, ?_⟩
    intro hfits
    rw [hheld, wrap_of_fits hfits]
  · have hheld : wrap exclusives = wrap roots := by
      unfold exclusives roots
      rw [CallTree.sum_nodes_eq t (·.exclusiveTime), hlinks]
      exact hbalanced.sum_exclusiveTime hframes
    refine ⟨hheld, ?_⟩
    intro hexclusives hroots
    rwa [wrap_of_fits hexclusives, wrap_of_fits hroots] at hheld
  · intro hbound
    have hcalls := hbalanced.calls (by rwa [Nat.zero_add])
    rw [hframes, List.length_nil, Nat.add_zero, Nat.zero_add] at hcalls
    rw [CallTree.sum_nodes_eq t (·.timesCalled)]
    exact hcalls

/-- A function calls itself twice over and another one from the innermost call; exits without a call
come before and after, and the events come in two batches. -/
theorem inclusive_time_balances_folded :
    let o : Overhead := ⟨1, 2⟩
    let batches : List (List Event) :=
      [[.exit 5, ⟨10, 7⟩, ⟨20, 7⟩, ⟨30, 7⟩, ⟨40, 8⟩], [.exit 50, .exit 60, .exit 80, .exit 100, .exit 110]]
    let t := ((CallStack.empty o).updates .empty batches).2
    ((CallStack.empty o).updates .empty batches).1.depth = 0 ∧
      t.nodes.toList.map (·.statistics) =
        [⟨1, 0, 80, 27, 80⟩, ⟨2, 1, 53, 44, 53⟩, ⟨1, 0, 9, 9, 9⟩] ∧
      (t.nodes.toList.map (·.statistics.exclusiveTime)).sum =
        (t.roots.map fun link => (t.statisticsOf link.2).inclusiveTime).sum := by
  intro o batches t
  have hclosed : ((CallStack.empty o).updates .empty batches).1.depth = 0 := by decide
  have hlaws := inclusive_time_balances o batches hclosed
  exact ⟨hclosed, by decide, hlaws.2.1.2 (by decide) (by decide)⟩

end CallStack

end CallProfiler.Profile
