import CallProfiler.Proofs.CallTree.Branches
import Mathlib.Logic.Relation

/-!
# How call trees grow

Whatever is done to a call tree, short of clearing it, comes down to two changes: a node is found or made
below a node that is there, and statistics of a node are replaced.  Both keep the links as they should
be, and neither moves a node: the path to a number stays, and with it the function of its node.

**Main statements.**
* `Change.regular`, `Change.child?_eq_some`, `Change.new_path`: what one change keeps and what it adds.
* `Grows.regular`, `Grows.leads`, `Grows.new_path`: the same of any number of changes.
-/

namespace CallProfiler.Profile.CallTree

open Relation (ReflTransGen)

/-- Links lead to later nodes, each is keyed by the function of its node, every node is linked once, and
callees stand in ascending order. -/
structure Regular (t : CallTree) : Prop where
  wellFormed : t.WellFormed
  sorted : t.Sorted

theorem regular_empty :
    empty.Regular :=
  ⟨.empty, sorted_empty⟩

/-- A node is found or made at a path that `P` allows, or statistics are replaced. -/
inductive Change (P : List UInt64 → Prop) (t : CallTree) : CallTree → Prop
  | entry {path : List UInt64} {parent : Option Nat} {callee : UInt64} :
      t.Leads path parent →
      P (path ++ [callee]) →
      Change P t (t.entry parent callee).2
  | statistics (id : Nat) (f : Statistics → Statistics) : Change P t (t.modifyStatistics id f)

/-- A tree becomes another one by any number of changes. -/
abbrev Grows (P : List UInt64 → Prop) : CallTree → CallTree → Prop := ReflTransGen (Change P)

namespace Change

variable {P Q : List UInt64 → Prop} {t t' : CallTree}

theorem mono
    (hPQ : ∀ path, P path → Q path)
    (h : Change P t t') :
    Change Q t t' := by
  cases h with
  | entry hleads hallowed => exact .entry hleads (hPQ _ hallowed)
  | statistics id f => exact .statistics id f

theorem regular
    (h : Change P t t')
    (ht : t.Regular) :
    t'.Regular := by
  cases h with
  | entry hleads _ =>
      have hparent := ht.wellFormed.isPosition hleads
      exact ⟨ht.wellFormed.entry hparent, ht.sorted.entry hparent⟩
  | statistics id f =>
      exact ⟨ht.wellFormed.modifyStatistics id f, ht.sorted.modifyStatistics id f⟩

/-- No link is lost. -/
theorem child?_eq_some
    (h : Change P t t')
    (ht : t.Regular)
    {parent : Option Nat} {callee : UInt64} {id : Nat}
    (hchild : t.child? parent callee = some id) :
    t'.child? parent callee = some id := by
  cases h with
  | entry hparent _ =>
      exact child?_entry_of_child? (ht.wellFormed.isPosition hparent) hchild
  | statistics i f =>
      rwa [child?_modifyStatistics]

/-- A path is old, or it is one that is allowed. -/
theorem new_path
    (h : Change P t t')
    (ht : t.Regular)
    {path : List UInt64} {id : Nat}
    (hleads : t'.Leads path (some id)) :
    t.Leads path (some id) ∨ P path := by
  cases h with
  | entry hparent hallowed =>
      rcases leads_entry_cases ht.wellFormed hparent hleads with hold | ⟨rfl, -, -⟩
      · exact .inl hold
      · exact .inr hallowed
  | statistics i f =>
      exact .inl ((leads_modifyStatistics i f).1 hleads)

end Change

namespace Grows

variable {P Q : List UInt64 → Prop} {t t' : CallTree}

theorem mono
    (hPQ : ∀ path, P path → Q path)
    (h : Grows P t t') :
    Grows Q t t' :=
  ReflTransGen.mono (fun _ _ => Change.mono hPQ) _ _ h

theorem regular
    (h : Grows P t t')
    (ht : t.Regular) :
    t'.Regular := by
  induction h with
  | refl => exact ht
  | tail _ hchange ih => exact hchange.regular ih

theorem child?_eq_some
    (h : Grows P t t')
    (ht : t.Regular)
    {parent : Option Nat} {callee : UInt64} {id : Nat}
    (hchild : t.child? parent callee = some id) :
    t'.child? parent callee = some id := by
  induction h with
  | refl => exact hchild
  | tail hbefore hchange ih => exact hchange.child?_eq_some (Grows.regular hbefore ht) ih

/-- **A number keeps its path**, whatever changes follow. -/
theorem leads
    (h : Grows P t t')
    (ht : t.Regular)
    {path : List UInt64} {position : Option Nat}
    (hleads : t.Leads path position) :
    t'.Leads path position := by
  induction hleads with
  | root => exact .root
  | child _ hchild ih => exact .child ih (h.child?_eq_some ht hchild)

/-- No node is lost. -/
theorem lt_size
    (h : Grows P t t')
    (ht : t.Regular)
    {id : Nat}
    (hid : id < t.size) :
    id < t'.size := by
  obtain ⟨path, hpath⟩ := ht.wellFormed.exists_path hid
  exact (h.regular ht).wellFormed.isPosition (h.leads ht hpath) id rfl

/-- **A path** is old, or it is one that is allowed. -/
theorem new_path
    (h : Grows P t t')
    (ht : t.Regular)
    {path : List UInt64} {id : Nat}
    (hleads : t'.Leads path (some id)) :
    t.Leads path (some id) ∨ P path := by
  induction h with
  | refl => exact .inl hleads
  | tail hbefore hchange ih =>
      rcases hchange.new_path (Grows.regular hbefore ht) hleads with hold | hnew
      · exact ih hold
      · exact .inr hnew

end Grows

end CallProfiler.Profile.CallTree
