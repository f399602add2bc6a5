import CallProfiler.Proofs.CallTree.Merging
import Mathlib.Data.List.Induction

/-!
# Totals of functions

Totals are collected node by node, each under its function.  Additions can be made in any order, so the
totals of a tree depend on its nodes and not on their numbers.  A merge adds each node of the other tree
to one node here, and so the totals of the other tree are added to those here.

**Main statements.**
* `Totals.collect_perm`: the order of additions does not matter.
* `Totals.lookup_collect`: what is collected under each function.
* `totals_visit`, `lookup_totals_merge`: what a visit and a merge add to the totals.
-/

namespace CallProfiler.Profile

namespace Totals

variable {totals : Totals} {callee callee' other : UInt64} {s s' : Statistics}

/-- Adds statistics one after the other, each to those of its function. -/
def collect (row : List (UInt64 × Statistics)) (totals : Totals) : Totals :=
  row.foldl (fun totals p => totals.add p.1 p.2) totals

/-- Functions stand in ascending order, each once. -/
def Ascending (totals : Totals) : Prop := totals.Pairwise fun p q => p.1 < q.1

/-- All sums are within their bounds, and no longest call took less than no time. -/
def Sound (totals : Totals) : Prop := ∀ p ∈ totals, p.2.Sound

/-! ## The order of additions -/

/-- Two additions under one function are one addition. -/
theorem add_add :
    add callee s' (add callee s totals) = add callee (s.merge s') totals := by
  induction totals with
  | nil =>
      simp [add, Statistics.merge_assoc]
  | cons head rest ih =>
      obtain ⟨c, u⟩ := head
      by_cases hlt : callee < c
      · simp [add, hlt, Statistics.merge_assoc]
      · by_cases heq : c = callee
        · simp [add, heq, Statistics.merge_assoc]
        · simp [add, hlt, heq, ih]

/-- Additions under different functions can change places. -/
theorem add_comm_of_lt
    (h : callee < callee') :
    add callee s (add callee' s' totals) = add callee' s' (add callee s totals) := by
  have hge := UInt64.lt_asymm h
  have hne := UInt64.ne_of_lt h
  induction totals with
  | nil =>
      simp [add, h, hge, hne]
  | cons head rest ih =>
      obtain ⟨c, u⟩ := head
      by_cases hlt : callee' < c
      · simp [add, hlt, h, hge, hne, UInt64.lt_trans h hlt]
      · by_cases heq : c = callee'
        · subst heq
          simp [add, h, hge, hne]
        · by_cases hlt' : callee < c
          · simp [add, hlt, heq, hlt', hge, hne]
          · by_cases heq' : c = callee
            · simp [add, heq', hge, hne]
            · simp [add, hlt, heq, hlt', heq', ih]

theorem add_comm :
    add callee s (add callee' s' totals) = add callee' s' (add callee s totals) := by
  by_cases heq : callee = callee'
  · rw [heq, add_add, add_add, Statistics.merge_comm]
  · rcases UInt64.lt_or_lt_of_ne heq with hlt | hlt
    · exact add_comm_of_lt hlt
    · exact (add_comm_of_lt hlt).symm

/-- **The order of additions** does not matter. -/
theorem collect_perm
    {row row' : List (UInt64 × Statistics)}
    (h : row.Perm row')
    (totals : Totals) :
    collect row totals = collect row' totals :=
  h.foldl_eq' (fun _ _ _ _ _ => add_comm) totals

/-! ## What is collected -/

theorem mem_add
    {p : UInt64 × Statistics}
    (h : p ∈ add callee s totals) :
    p.1 = callee ∨ p ∈ totals := by
  induction totals with
  | nil =>
      exact .inl (congrArg Prod.fst (List.mem_singleton.1 h))
  | cons head rest ih =>
      obtain ⟨c, u⟩ := head
      unfold add at h
      split at h
      · rcases List.mem_cons.1 h with rfl | h
        · exact .inl rfl
        · exact .inr h
      · split at h
        next heq =>
          rcases List.mem_cons.1 h with rfl | h
          · exact .inl heq
          · exact .inr (List.mem_cons_of_mem _ h)
        next =>
          rcases List.mem_cons.1 h with rfl | h
          · exact .inr List.mem_cons_self
          · exact (ih h).imp_right (List.mem_cons_of_mem _)

theorem Ascending.add
    (h : totals.Ascending)
    (callee : UInt64) (s : Statistics) :
    (totals.add callee s).Ascending := by
  induction totals with
  | nil =>
      exact List.pairwise_singleton _ _
  | cons head rest ih =>
      obtain ⟨c, u⟩ := head
      obtain ⟨hhead, hrest⟩ := List.pairwise_cons.1 h
      unfold Totals.add
      split
      next hlt =>
        refine List.Pairwise.cons ?_ h
        intro p hp
        rcases List.mem_cons.1 hp with rfl | hp
        · exact hlt
        · exact UInt64.lt_trans hlt (hhead p hp)
      next hge =>
        split
        · exact List.Pairwise.cons hhead hrest
        next hne =>
          refine List.Pairwise.cons ?_ (ih hrest)
          intro p hp
          rcases mem_add hp with hnew | hp
          · rw [hnew]
            exact UInt64.lt_of_le_of_ne (UInt64.not_lt.1 hge) hne
          · exact hhead p hp

theorem Sound.add
    (h : totals.Sound)
    (callee : UInt64) (s : Statistics) :
    (totals.add callee s).Sound := by
  have hzero : (Statistics.zero.merge s).Sound := Statistics.sound_merge (Int.le_refl 0) s
  induction totals with
  | nil =>
      exact List.forall_mem_singleton.2 hzero
  | cons head rest ih =>
      obtain ⟨c, u⟩ := head
      obtain ⟨hhead, hrest⟩ := List.forall_mem_cons.1 h
      unfold Totals.add
      split
      · exact List.forall_mem_cons.2 ⟨hzero, h⟩
      · split
        · exact List.forall_mem_cons.2 ⟨Statistics.sound_merge hhead.maxCallTime s, hrest⟩
        · exact List.forall_mem_cons.2 ⟨hhead, ih hrest⟩

theorem ascending_collect
    (h : totals.Ascending)
    (row : List (UInt64 × Statistics)) :
    (collect row totals).Ascending := by
  induction row generalizing totals with
  | nil => exact h
  | cons p rest ih => exact ih (h.add p.1 p.2)

theorem sound_collect
    (h : totals.Sound)
    (row : List (UInt64 × Statistics)) :
    (collect row totals).Sound := by
  induction row generalizing totals with
  | nil => exact h
  | cons p rest ih => exact ih (h.add p.1 p.2)

/-- Where the totals are sound, zero adds nothing. -/
theorem add_zero_merge
    (h : totals.Sound) :
    totals.add callee (Statistics.zero.merge s) = totals.add callee s := by
  have hzero : Statistics.zero.merge (Statistics.zero.merge s) = Statistics.zero.merge s := by
    rw [← Statistics.merge_assoc, Statistics.merge_zero Statistics.sound_zero]
  induction totals with
  | nil =>
      simp only [Totals.add, hzero]
  | cons head rest ih =>
      obtain ⟨c, u⟩ := head
      obtain ⟨hhead, hrest⟩ := List.forall_mem_cons.1 h
      have hmerged : u.merge (Statistics.zero.merge s) = u.merge s := by
        rw [← Statistics.merge_assoc, Statistics.merge_zero hhead]
      simp only [Totals.add, hzero, hmerged, ih hrest]

theorem lookup_cons
    (c : UInt64) (u : Statistics) (rest : Totals) :
    List.lookup other ((c, u) :: rest) = if other = c then some u else List.lookup other rest := by
  rw [List.lookup_cons]
  by_cases h : other = c
  · rw [if_pos h, h, beq_self_eq_true]
  · rw [if_neg h, beq_eq_false_iff_ne.2 h]

/-- What precedes all functions is not among them. -/
theorem lookup_eq_none
    (h : ∀ p ∈ totals, other < p.1) :
    totals.lookup other = none := by
  rw [List.lookup_eq_none_iff]
  intro p hp
  simpa using UInt64.ne_of_lt (h p hp)

/-- **An addition** changes the statistics of its function alone, which are zero if there are none. -/
theorem lookup_add
    (h : totals.Ascending)
    (callee other : UInt64) (s : Statistics) :
    (totals.add callee s).lookup other =
      if other = callee then some (((totals.lookup callee).getD .zero).merge s)
      else totals.lookup other := by
  induction totals with
  | nil =>
      rw [Totals.add, lookup_cons]
      rfl
  | cons head rest ih =>
      obtain ⟨c, u⟩ := head
      obtain ⟨hhead, hrest⟩ := List.pairwise_cons.1 h
      unfold Totals.add
      split
      next hlt =>
        have hnone : List.lookup callee ((c, u) :: rest) = none := by
          refine lookup_eq_none (List.forall_mem_cons.2 ⟨hlt, ?_⟩)
          intro p hp
          exact UInt64.lt_trans hlt (hhead p hp)
        rw [lookup_cons, hnone]
        rfl
      next =>
        split
        next heq =>
          subst heq
          simp only [lookup_cons, if_true, Option.getD_some]
          split
          · rfl
          · rfl
        next hne =>
          rw [lookup_cons, ih hrest, lookup_cons, lookup_cons, if_neg (Ne.symm hne)]
          split
          next heq => rw [if_neg (heq ▸ hne)]
          next => rfl

theorem Sound.of_lookup
    (h : totals.Sound)
    (hs : totals.lookup callee = some s) :
    s.Sound := by
  obtain ⟨l, l', rfl, -⟩ := List.lookup_eq_some_iff.1 hs
  exact h (callee, s) (by simp)

/-- **What is collected** under a function is added to what was there. -/
theorem lookup_collect
    (hascending : totals.Ascending)
    (hsound : totals.Sound)
    (row : List (UInt64 × Statistics)) (other : UInt64) :
    (collect row totals).lookup other =
      Option.merge Statistics.merge (totals.lookup other) ((collect row []).lookup other) := by
  induction row using List.reverseRecOn with
  | nil =>
      exact Option.merge_none_right.symm
  | append_singleton row p ih =>
      have hcollect : ∀ totals, collect (row ++ [p]) totals = (collect row totals).add p.1 p.2 :=
        fun _ => List.foldl_concat ..
      have hnone : (collect row []).Ascending := ascending_collect List.Pairwise.nil row
      rw [hcollect, hcollect, lookup_add (ascending_collect hascending row), lookup_add hnone]
      split
      next heq =>
        subst heq
        rw [ih]
        cases hold : totals.lookup p.1 with
        | none => simp
        | some u =>
            have hu := Statistics.merge_zero (hsound.of_lookup hold)
            cases (collect row []).lookup p.1 with
            | none => simp [← Statistics.merge_assoc, hu]
            | some s => simp [Statistics.merge_assoc]
      next => exact ih

end Totals

namespace CallTree

/-! ## The totals of a tree -/

/-- The statistics of all nodes in the order of their numbers, each with its function. -/
def summaries (t : CallTree) : List (UInt64 × Statistics) :=
  t.nodes.toList.map fun n => (n.callee, n.statistics)

theorem totals_eq
    (t : CallTree) :
    t.totals = Totals.collect t.summaries [] := by
  rw [totals, Totals.collect, summaries, List.foldl_map, Array.foldl_toList]

variable {t u : CallTree}

theorem ascending_totals :
    t.totals.Ascending := by
  rw [totals_eq]
  exact Totals.ascending_collect List.Pairwise.nil _

theorem sound_totals :
    t.totals.Sound := by
  rw [totals_eq]
  exact Totals.sound_collect (List.forall_mem_nil _) _

theorem getElem?_summaries
    (t : CallTree) (i : Nat) :
    t.summaries[i]? = (t.node? i).map fun n => (n.callee, n.statistics) := by
  simp [summaries, node?]

/-- A node that is made has seen no call. -/
theorem summaries_entry_of_child?_none
    {parent : Option Nat} {callee : UInt64}
    (h : t.child? parent callee = none)
    (hparent : t.IsPosition parent) :
    (t.entry parent callee).2.summaries = t.summaries ++ [(callee, .zero)] := by
  apply List.ext_getElem?
  intro i
  have hlength : t.summaries.length = t.size := by
    simp [summaries, size]
  rw [getElem?_summaries, node?_entry_of_child?_none h hparent, List.getElem?_append, hlength,
    getElem?_summaries]
  rcases Nat.lt_trichotomy i t.size with hlt | rfl | hgt
  · rw [if_neg (Nat.ne_of_lt hlt), if_pos hlt]
  · simp
  · have hnode : t.node? i = none := Array.getElem?_eq_none (Nat.le_of_lt hgt)
    have hpast : [(callee, Statistics.zero)][i - t.size]? = none := by
      rw [List.getElem?_eq_none_iff, List.length_singleton]
      omega
    rw [if_neg (Nat.ne_of_gt hgt), if_neg (Nat.lt_asymm hgt), hnode, hpast]
    rfl

theorem summaries_modifyStatistics
    (id : Nat) (f : Statistics → Statistics) :
    (t.modifyStatistics id f).summaries = t.summaries.modify id fun p => (p.1, f p.2) := by
  apply List.ext_getElem?
  intro i
  rw [getElem?_summaries, node?_modifyStatistics, List.getElem?_modify, getElem?_summaries]
  split
  · cases t.node? i <;> rfl
  · cases t.node? i <;> rfl

/-- Adding to the statistics of a node adds to the totals of its function. -/
theorem totals_modifyStatistics_merge
    {id : Nat} {callee : UInt64}
    (hcallee : (t.node? id).map (·.callee) = some callee)
    (s : Statistics) :
    (t.modifyStatistics id (·.merge s)).totals = t.totals.add callee s := by
  obtain ⟨n, hnode, rfl⟩ := Option.map_eq_some_iff.1 hcallee
  have hget : t.summaries[id]? = some (n.callee, n.statistics) := by
    rw [getElem?_summaries, hnode]
    rfl
  obtain ⟨hlt, hget⟩ := List.getElem?_eq_some_iff.1 hget
  obtain ⟨before, p, after, hbefore, hlength, hafter⟩ :=
    List.exists_of_modify (fun p : UInt64 × Statistics => (p.1, p.2.merge s)) hlt
  have hp : p = (n.callee, n.statistics) := by
    rw [← hget]
    simp [hbefore, ← hlength]
  subst hp
  -- The node is taken to the end of the row, where its statistics are two additions.
  have hlast : ∀ q, Totals.collect (before ++ q :: after) [] =
      (Totals.collect (before ++ after) []).add q.1 q.2 := by
    intro q
    have hperm : (before ++ q :: after).Perm ((before ++ after) ++ [q]) :=
      List.perm_middle.trans (List.perm_append_singleton _ _).symm
    rw [Totals.collect_perm hperm]
    exact List.foldl_concat ..
  rw [totals_eq, totals_eq, summaries_modifyStatistics, hafter, hbefore, hlast, hlast,
    Totals.add_add]

/-- **A visit** adds its statistics to the totals of its function. -/
theorem totals_visit
    (ht : t.Regular)
    {path : List UInt64} {parent : Option Nat}
    (hpath : t.Leads path parent)
    (callee : UInt64) (s : Statistics) :
    (t.visit parent callee s).2.totals = t.totals.add callee s := by
  have hparent := ht.wellFormed.isPosition hpath
  have hself : (t.entry parent callee).2.child? parent callee = some (t.entry parent callee).1 :=
    child?_entry_self hparent
  have hcallee := (ht.wellFormed.entry hparent).callee_eq hself
  have hadded := totals_modifyStatistics_merge hcallee s
  rw [visit, hadded]
  cases hchild : t.child? parent callee with
  | some id =>
      rw [entry_of_child? hchild]
  | none =>
      have hempty : (t.entry parent callee).2.totals = t.totals.add callee .zero := by
        rw [totals_eq, summaries_entry_of_child?_none hchild hparent, totals_eq]
        exact List.foldl_concat ..
      rw [hempty, Totals.add_add, Totals.add_zero_merge sound_totals]

/-- The function that a path ends with, and the statistics there. -/
def summary (p : List UInt64 × Statistics) : UInt64 × Statistics := (p.1.getLast?.getD 0, p.2)

theorem Visits.totals_eq
    {t' : CallTree} {row : List (List UInt64 × Statistics)}
    (h : Visits t row t')
    (ht : t.Regular) :
    t'.totals = Totals.collect (row.map summary) t.totals := by
  induction h with
  | nil => rfl
  | @cons t t' path parent callee s rest hpath _ ih =>
      have hfunction : summary (path ++ [callee], s) = (callee, s) := by
        simp [summary]
      rw [ih (regular_visit ht hpath callee s), totals_visit ht hpath, List.map_cons, hfunction]
      rfl

/-- The branches hold the summary of every node once. -/
theorem perm_summaries
    (hu : u.Regular) :
    ((CallBranch.listingAll [] u.branches).map summary).Perm u.summaries := by
  have hnodes := (perm_listing_branches hu.wellFormed hu.sorted).map
    fun l => (l.2.1.getD 0, l.2.2)
  rw [List.map_map, List.map_map] at hnodes
  have hsummaries : u.summaries = u.nodes.toList.zipIdx.map fun n => (n.1.callee, n.1.statistics) := by
    rw [summaries]
    conv_lhs => rw [← List.zipIdx_map_fst 0 u.nodes.toList, List.map_map]
    rfl
  rw [hsummaries]
  exact hnodes

/-- **The totals of a merge** are, function by function, the sums of both totals. -/
theorem lookup_totals_merge
    (ht : t.Regular)
    (hu : u.Regular)
    (callee : UInt64) :
    (t.merge u).totals.lookup callee =
      Option.merge Statistics.merge (t.totals.lookup callee) (u.totals.lookup callee) := by
  obtain ⟨row, hrow, hvisits⟩ := exists_visits_merge ht u
  have hperm := (hrow.map summary).trans (perm_summaries hu)
  rw [hvisits.totals_eq ht, Totals.collect_perm hperm,
    Totals.lookup_collect ascending_totals sound_totals, totals_eq u]

end CallTree

end CallProfiler.Profile
