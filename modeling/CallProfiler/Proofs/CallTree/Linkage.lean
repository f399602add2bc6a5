import CallProfiler.Proofs.CallTree.Paths
import Mathlib.Algebra.BigOperators.Group.List.Basic
import Mathlib.Data.List.Nodup
import Mathlib.Data.List.Pairwise

/-!
# Links as a partition of the nodes

Besides finding a node by its callee, the links can be gone through one by one.  In a tree built by
`CallTree.entry` every node is then met exactly once, below its caller or among the roots, so a sum
over all nodes is the sum over the roots and the callees of each node.

**Main statements.**
* `LinkedOnce.entry`: finding or making a node keeps every node linked once.
* `LinkedOnce.count_linkedTo`: a node is met below its caller and nowhere else.
* `LinkedOnce.sum_nodes`: the sum over all nodes by callers.
-/

namespace CallProfiler.Profile

namespace Links

/-- A link that is found can be met. -/
theorem mem_of_find?
    {callee : UInt64} {id : Nat} {links : Links}
    (h : links.find? callee = some id) :
    (callee, id) ∈ links := by
  induction links with
  | nil =>
      cases h
  | cons head rest ih =>
      obtain ⟨c, i⟩ := head
      unfold find? at h
      split at h
      next heq =>
        cases h
        exact heq ▸ List.mem_cons_self
      next =>
        exact List.mem_cons_of_mem _ (ih h)

/-- A new link is met once, and the others are met as before. -/
theorem perm_insert
    {callee : UInt64} {links : Links}
    (h : links.find? callee = none)
    (id : Nat) :
    (links.insert callee id).Perm ((callee, id) :: links) := by
  induction links with
  | nil =>
      exact List.Perm.refl _
  | cons head rest ih =>
      obtain ⟨c, i⟩ := head
      unfold find? at h
      unfold insert
      by_cases heq : c = callee
      · simp [heq] at h
      · rw [if_neg heq] at h
        by_cases hlt : callee < c
        · rw [if_pos hlt]
        · rw [if_neg hlt, if_neg heq]
          exact ((ih h).cons (c, i)).trans (List.Perm.swap _ _ _)

end Links

namespace CallTree

/-- The statistics of the node with a number; nothing is counted where there is none. -/
def statisticsOf (t : CallTree) (id : Nat) : Statistics := ((t.node? id).map (·.statistics)).getD .zero

/-- Where nodes can be linked: among the roots and below each node. -/
def positions (t : CallTree) : List (Option Nat) := none :: (List.range t.size).map some

/-- The nodes linked at a position. -/
def linkedTo (t : CallTree) (parent : Option Nat) : List Nat := (t.linksOf parent).map (·.2)

/-- Going through all links meets every node exactly once. -/
def LinkedOnce (t : CallTree) : Prop := (t.positions.flatMap t.linkedTo).Perm (List.range t.size)

theorem nodup_positions
    (t : CallTree) :
    t.positions.Nodup := by
  refine List.nodup_cons.2 ⟨by simp, ?_⟩
  exact List.nodup_range.map fun _ _ h => Option.some.inj h

theorem mem_positions
    {t : CallTree} {parent : Option Nat} :
    parent ∈ t.positions ↔ t.IsPosition parent := by
  cases parent with
  | none =>
      simp [positions, IsPosition]
  | some p =>
      simp [positions, IsPosition]

theorem mem_linkedTo
    {t : CallTree} {parent : Option Nat} {callee : UInt64} {id : Nat}
    (h : t.child? parent callee = some id) :
    id ∈ t.linkedTo parent :=
  List.mem_map_of_mem (f := (·.2)) (Links.mem_of_find? h)

/-- Nothing is linked below a node that does not exist. -/
theorem linkedTo_eq_nil
    {t : CallTree} {parent : Option Nat}
    (h : parent ∉ t.positions) :
    t.linkedTo parent = [] := by
  cases parent with
  | none =>
      exact absurd List.mem_cons_self h
  | some p =>
      have hle : t.nodes.size ≤ p := by
        by_contra hlt
        apply h
        rw [mem_positions]
        rintro q ⟨⟩
        exact Nat.lt_of_not_le hlt
      simp [linkedTo, linksOf, Array.getElem?_eq_none hle]

/-- Where one list of many gets one element more, so does the list of all. -/
theorem perm_flatMap_cons
    {α β : Type} {l : List α} {f g : α → List β} {a : α} {x : β}
    (hnodup : l.Nodup)
    (hmem : a ∈ l)
    (hat : (g a).Perm (x :: f a))
    (hother : ∀ b, b ≠ a → g b = f b) :
    (l.flatMap g).Perm (x :: l.flatMap f) := by
  induction l with
  | nil =>
      cases hmem
  | cons b rest ih =>
      obtain ⟨hb, hrest⟩ := List.nodup_cons.1 hnodup
      rw [List.flatMap_cons, List.flatMap_cons]
      by_cases hba : b = a
      · subst hba
        have hsame : rest.flatMap g = rest.flatMap f := by
          apply List.flatMap_congr
          intro c hc
          apply hother
          rintro rfl
          exact hb hc
        rw [hsame]
        exact hat.append_right _
      · rw [hother b hba]
        have hmem' := (List.mem_cons.1 hmem).resolve_left (Ne.symm hba)
        exact ((ih hrest hmem').append_left (f b)).trans List.perm_middle

namespace LinkedOnce

variable {t : CallTree}

theorem empty :
    CallTree.empty.LinkedOnce :=
  List.Perm.refl _

theorem modifyStatistics
    (h : t.LinkedOnce)
    (id : Nat) (f : Statistics → Statistics) :
    (t.modifyStatistics id f).LinkedOnce := by
  have hlinked : (t.modifyStatistics id f).linkedTo = t.linkedTo := by
    funext parent
    rw [linkedTo, linksOf_modifyStatistics]
    rfl
  unfold LinkedOnce positions
  rw [hlinked, size_modifyStatistics]
  exact h

/-- A node that is made is met below its caller. -/
theorem perm_linkedTo_entry
    {parent : Option Nat} {callee : UInt64}
    (hnone : t.child? parent callee = none)
    (hparent : t.IsPosition parent) :
    ((t.entry parent callee).2.linkedTo parent).Perm (t.size :: t.linkedTo parent) ∧
      ∀ other, other ≠ parent → (t.entry parent callee).2.linkedTo other = t.linkedTo other := by
  have hlinks := linksOf_entry_of_child?_none hnone hparent
  constructor
  · rw [linkedTo, hlinks, if_pos rfl]
    exact (Links.perm_insert hnone t.size).map (·.2)
  · intro other hother
    rw [linkedTo, hlinks, if_neg (Ne.symm hother)]
    rfl

/-- **Finding or making a node** keeps every node linked once. -/
theorem entry
    (h : t.LinkedOnce)
    {parent : Option Nat} {callee : UInt64}
    (hparent : t.IsPosition parent) :
    (t.entry parent callee).2.LinkedOnce := by
  cases hold : t.child? parent callee with
  | some id =>
      rw [entry_of_child? hold]
      exact h
  | none =>
      have hsize := size_entry_of_child?_none hold
      obtain ⟨hat, hother⟩ := perm_linkedTo_entry hold hparent
      have hnew : some t.size ∉ t.positions := by
        rw [mem_positions]
        intro hposition
        exact Nat.lt_irrefl _ (hposition t.size rfl)
      have hne : some t.size ≠ parent := by
        rintro rfl
        exact hnew (mem_positions.2 hparent)
      have hpositions : (t.entry parent callee).2.positions = t.positions ++ [some t.size] := by
        simp [positions, hsize, List.range_succ]
      unfold LinkedOnce
      rw [hpositions, List.flatMap_append, List.flatMap_singleton, hother _ hne,
        linkedTo_eq_nil hnew, List.append_nil, hsize, List.range_succ]
      have hmore := perm_flatMap_cons t.nodup_positions (mem_positions.2 hparent) hat hother
      exact hmore.trans ((h.cons t.size).trans (List.perm_append_singleton _ _).symm)

/-- **A node** is met once at the position where it is linked, and nowhere else. -/
theorem count_linkedTo
    (h : t.LinkedOnce)
    {parent : Option Nat} {callee : UInt64} {id : Nat}
    (hparent : t.IsPosition parent)
    (hchild : t.child? parent callee = some id)
    (other : Option Nat) :
    (t.linkedTo other).count id = if other = parent then 1 else 0 := by
  have hnodup : (t.positions.flatMap t.linkedTo).Nodup := h.nodup_iff.2 List.nodup_range
  obtain ⟨hlists, hdisjoint⟩ := List.nodup_flatMap.1 hnodup
  have hmem := mem_linkedTo hchild
  have hposition := mem_positions.2 hparent
  split
  next heq =>
    rw [heq]
    exact List.count_eq_one_of_mem (hlists parent hposition) hmem
  next hne =>
    rw [List.count_eq_zero]
    intro hother
    have hposition' : other ∈ t.positions := by
      by_contra hnone
      rw [linkedTo_eq_nil hnone] at hother
      cases hother
    have hsymm : Std.Symm (Function.onFun List.Disjoint t.linkedTo) :=
      ⟨fun _ _ hdisjoint _ ha hb => hdisjoint hb ha⟩
    have hapart := hdisjoint.forall hposition' hposition hne
    exact hapart hother hmem

/-- **A sum over all nodes** is the sum over the roots and over the callees of every node. -/
theorem sum_nodes
    (h : t.LinkedOnce)
    (weight : Nat → Int) :
    ((List.range t.size).map weight).sum =
      ((t.linkedTo none).map weight).sum +
        ((List.range t.size).map fun id => ((t.linkedTo (some id)).map weight).sum).sum := by
  rw [← (List.Perm.map weight h).sum_eq, List.map_flatMap, positions, List.flatMap_cons,
    List.sum_append, List.flatMap_def, List.sum_flatten, List.map_map, List.map_map]
  rfl

end LinkedOnce

/-! ## Statistics by number -/

section StatisticsOf

variable {t : CallTree}

theorem statisticsOf_eq_zero
    {id : Nat}
    (h : t.size ≤ id) :
    t.statisticsOf id = .zero := by
  have hnone : t.nodes[id]? = none := Array.getElem?_eq_none h
  simp [statisticsOf, node?, hnone]

/-- A node that is made has seen no call, and the others keep their statistics. -/
theorem statisticsOf_entry
    {parent : Option Nat} {callee : UInt64}
    (hparent : t.IsPosition parent)
    (id : Nat) :
    (t.entry parent callee).2.statisticsOf id = t.statisticsOf id := by
  cases hold : t.child? parent callee with
  | some child =>
      rw [entry_of_child? hold]
  | none =>
      have hnode := congrArg (Option.map Prod.snd) (node?_entry_of_child?_none hold hparent id)
      rw [Option.map_map] at hnode
      unfold statisticsOf
      have hstatistics : ((t.entry parent callee).2.node? id).map (·.statistics) = _ := hnode
      rw [hstatistics]
      split
      next heq =>
        have hzero := statisticsOf_eq_zero (t := t) (Nat.le_of_eq heq.symm)
        unfold statisticsOf at hzero
        rw [hzero]
        rfl
      next =>
        rw [Option.map_map]
        rfl

theorem statisticsOf_modifyStatistics
    {id : Nat}
    (h : id < t.size)
    (f : Statistics → Statistics) (i : Nat) :
    (t.modifyStatistics id f).statisticsOf i =
      if i = id then f (t.statisticsOf i) else t.statisticsOf i := by
  have hthere : t.node? id = some t.nodes[id] := Array.getElem?_eq_getElem h
  unfold statisticsOf
  rw [node?_modifyStatistics]
  by_cases hi : i = id
  · subst hi
    simp [hthere]
  · simp [hi, Ne.symm hi]

/-- A sum over the nodes in order is a sum over their numbers. -/
theorem sum_nodes_eq
    {M : Type} [AddCommMonoid M]
    (t : CallTree) (f : Statistics → M) :
    (t.nodes.toList.map fun n => f n.statistics).sum =
      ((List.range t.size).map fun id => f (t.statisticsOf id)).sum := by
  congr 1
  apply List.ext_getElem
  · simp [size]
  · intro i hi hi'
    have hlt : i < t.nodes.size := by
      simpa using hi
    simp [statisticsOf, node?, Array.getElem?_eq_getElem hlt]

end StatisticsOf

end CallTree

end CallProfiler.Profile
