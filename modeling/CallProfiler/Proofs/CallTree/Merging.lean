import CallProfiler.Proofs.CallTree.Growth
import Mathlib.Logic.Function.Iterate

/-!
# Merging visits every node once

A merge visits the nodes of the other tree one after the other.  A visit finds or makes the node with the
same path here and adds the statistics.  What is still to be visited can be kept on a stack, with the node
here below which each goes: a visit takes the last entry off and puts the callees of its node on.

**Main statements.**
* `visits_mergeBranches`: a merge is a row of visits, one for each node of the branches.
* `Visits.statisticsAt_of_mem`, `Visits.statisticsAt_of_notMem`: what a row of visits adds.
* `statisticsAt_merge`, `statisticsAt_foldl_merge_perm`: the law of paths, and the order of merges.
* `Walk.finishes`: the stack is empty after as many visits as there are nodes, and the tree is the merge.
-/

namespace CallProfiler.Profile.CallTree

open CallBranch

/-- Finds or makes a node and adds statistics to it. -/
def visit (t : CallTree) (parent : Option Nat) (callee : UInt64) (s : Statistics) : Nat × CallTree :=
  ((t.entry parent callee).1,
    (t.entry parent callee).2.modifyStatistics (t.entry parent callee).1 (·.merge s))

theorem mergeBranch_node
    (t : CallTree) (parent : Option Nat)
    (callee : UInt64) (s : Statistics) (callees : List CallBranch) :
    mergeBranch parent (.node callee s callees) t =
      mergeBranches (some (t.visit parent callee s).1) callees (t.visit parent callee s).2 := by
  rw [mergeBranch]
  rfl

/-- A tree becomes another one by visiting paths with statistics, in their order. -/
inductive Visits : CallTree → List (List UInt64 × Statistics) → CallTree → Prop
  | nil {t : CallTree} : Visits t [] t
  | cons {t t' : CallTree} {path : List UInt64} {parent : Option Nat} {callee : UInt64}
      {s : Statistics} {rest : List (List UInt64 × Statistics)} :
      t.Leads path parent →
      Visits (t.visit parent callee s).2 rest t' →
      Visits t ((path ++ [callee], s) :: rest) t'

section Visit

variable {t : CallTree} {path : List UInt64} {parent : Option Nat}

theorem leads_visit
    (hwf : t.WellFormed)
    (hpath : t.Leads path parent)
    (callee : UInt64) (s : Statistics) :
    (t.visit parent callee s).2.Leads (path ++ [callee]) (some (t.visit parent callee s).1) := by
  rw [visit, leads_modifyStatistics]
  exact leads_entry hwf hpath

/-- A visit adds the statistics to those at the one path; a node that is made had none. -/
theorem statisticsAt_visit
    (hwf : t.WellFormed)
    (hpath : t.Leads path parent)
    (callee : UInt64) (s : Statistics) (other : List UInt64) :
    (t.visit parent callee s).2.statisticsAt other =
      if other = path ++ [callee] then some (((t.statisticsAt other).getD .zero).merge s)
      else t.statisticsAt other := by
  have hparent := hwf.isPosition hpath
  rw [visit, statisticsAt_modifyStatistics _ _ (hwf.entry hparent) (leads_entry hwf hpath),
    statisticsAt_entry hwf hpath]
  split
  · rfl
  · rfl

theorem grows_visit
    {P : List UInt64 → Prop}
    (hpath : t.Leads path parent)
    {callee : UInt64}
    (hallowed : P (path ++ [callee]))
    (s : Statistics) :
    Grows P t (t.visit parent callee s).2 := by
  have hentry : Grows P t (t.entry parent callee).2 := .single (.entry hpath hallowed)
  exact hentry.tail (Change.statistics (t.entry parent callee).1 (·.merge s))

theorem regular_visit
    (ht : t.Regular)
    (hpath : t.Leads path parent)
    (callee : UInt64) (s : Statistics) :
    (t.visit parent callee s).2.Regular :=
  (grows_visit (P := fun _ => True) hpath trivial s).regular ht

end Visit

namespace Visits

variable {t t' t'' : CallTree} {row row' : List (List UInt64 × Statistics)}

theorem append
    (h : Visits t row t')
    (h' : Visits t' row' t'') :
    Visits t (row ++ row') t'' := by
  induction h with
  | nil => exact h'
  | cons hpath _ ih => exact .cons hpath (ih h')

theorem grows
    {P : List UInt64 → Prop}
    (h : Visits t row t')
    (hallowed : ∀ p ∈ row, P p.1) :
    Grows P t t' := by
  induction h with
  | nil => exact .refl
  | cons hpath _ ih =>
      obtain ⟨hfirst, hrest⟩ := List.forall_mem_cons.1 hallowed
      exact (grows_visit hpath hfirst _).trans (ih hrest)

theorem regular
    (h : Visits t row t')
    (ht : t.Regular) :
    t'.Regular :=
  (h.grows (P := fun _ => True) fun _ _ => trivial).regular ht

theorem leads
    (h : Visits t row t')
    (ht : t.Regular)
    {path : List UInt64} {position : Option Nat}
    (hleads : t.Leads path position) :
    t'.Leads path position :=
  (h.grows (P := fun _ => True) fun _ _ => trivial).leads ht hleads

/-- Nothing changes where nothing is visited. -/
theorem statisticsAt_of_notMem
    (h : Visits t row t')
    (ht : t.Regular)
    {other : List UInt64}
    (hother : other ∉ row.map (·.1)) :
    t'.statisticsAt other = t.statisticsAt other := by
  induction h with
  | nil => rfl
  | @cons t t' path parent callee s rest hpath _ ih =>
      rw [List.map_cons, List.mem_cons, not_or] at hother
      have hnext := regular_visit ht hpath callee s
      rw [ih hnext hother.2, statisticsAt_visit ht.wellFormed hpath, if_neg hother.1]

/-- Where one visit goes, its statistics are added. -/
theorem statisticsAt_of_mem
    (h : Visits t row t')
    (ht : t.Regular)
    (hdistinct : (row.map (·.1)).Nodup)
    {other : List UInt64} {s : Statistics}
    (hother : (other, s) ∈ row) :
    t'.statisticsAt other = some (((t.statisticsAt other).getD .zero).merge s) := by
  induction h with
  | nil => cases hother
  | @cons t t' path parent callee s' rest hpath hvisits ih =>
      rw [List.map_cons, List.nodup_cons] at hdistinct
      have hnext := regular_visit ht hpath callee s'
      rcases List.mem_cons.1 hother with heq | hother
      · cases heq
        rw [hvisits.statisticsAt_of_notMem hnext hdistinct.1, statisticsAt_visit ht.wellFormed hpath,
          if_pos rfl]
      · have hne : other ≠ path ++ [callee] := by
          rintro rfl
          exact hdistinct.1 (List.mem_map_of_mem (f := (·.1)) hother)
        rw [ih hnext hdistinct.2 hother, statisticsAt_visit ht.wellFormed hpath, if_neg hne]

end Visits

/-! ## A merge is a row of visits -/

mutual

theorem visits_mergeBranch
    {t : CallTree}
    (ht : t.Regular)
    {callers : List UInt64} {parent : Option Nat}
    (hleads : t.Leads callers parent) :
    ∀ b : CallBranch, ∃ row, row.Perm (listing callers b) ∧ Visits t row (mergeBranch parent b t)
  | .node callee s callees => by
      have hnext := regular_visit ht hleads callee s
      have hnode := leads_visit ht.wellFormed hleads callee s
      obtain ⟨row, hrow, hvisits⟩ := visits_mergeBranches hnext hnode callees
      rw [mergeBranch_node, listing]
      exact ⟨_, hrow.cons _, .cons hleads hvisits⟩

theorem visits_mergeBranches
    {t : CallTree}
    (ht : t.Regular)
    {callers : List UInt64} {parent : Option Nat}
    (hleads : t.Leads callers parent) :
    ∀ branches : List CallBranch, ∃ row, row.Perm (listingAll callers branches) ∧
      Visits t row (mergeBranches parent branches t)
  | [] => by
      rw [mergeBranches, listingAll]
      exact ⟨[], .refl _, .nil⟩
  | b :: rest => by
      obtain ⟨after, hafter, hvisits⟩ := visits_mergeBranches ht hleads rest
      obtain ⟨row, hrow, hvisits'⟩ :=
        visits_mergeBranch (hvisits.regular ht) (hvisits.leads ht hleads) b
      rw [mergeBranches, listingAll]
      exact ⟨after ++ row, List.perm_append_comm.trans (hrow.append hafter), hvisits.append hvisits'⟩

end

section Merge

variable {t u : CallTree}

/-- A merge visits every path of the other tree once. -/
theorem exists_visits_merge
    (ht : t.Regular)
    (u : CallTree) :
    ∃ row, row.Perm (listingAll [] u.branches) ∧ Visits t row (t.merge u) :=
  visits_mergeBranches ht .root u.branches

theorem regular_merge
    (ht : t.Regular)
    (u : CallTree) :
    (t.merge u).Regular := by
  obtain ⟨row, -, hvisits⟩ := exists_visits_merge ht u
  exact hvisits.regular ht

/-- The paths that a merge makes are those of the other tree. -/
theorem grows_merge
    {P : List UInt64 → Prop}
    (ht : t.Regular)
    (hu : u.Regular)
    (hallowed : ∀ path id, u.Leads path (some id) → P path) :
    Grows P t (t.merge u) := by
  obtain ⟨row, hrow, hvisits⟩ := exists_visits_merge ht u
  refine hvisits.grows ?_
  rintro ⟨path, s⟩ hp
  have hs := (mem_listing_branches hu.wellFormed hu.sorted).1 (hrow.subset hp)
  obtain ⟨id, -, hleads, -⟩ := exists_of_statisticsAt hs
  exact hallowed path id hleads

/-- **Merging** adds the statistics at every path of the other tree to those here, or to none, and
leaves all other paths as they are. -/
theorem statisticsAt_merge
    (ht : t.Regular)
    (hu : u.Regular)
    (path : List UInt64) :
    (t.merge u).statisticsAt path =
      (u.statisticsAt path).elim (t.statisticsAt path)
        fun s => some (((t.statisticsAt path).getD .zero).merge s) := by
  obtain ⟨row, hrow, hvisits⟩ := exists_visits_merge ht u
  have hlisted : ∀ s, (path, s) ∈ row ↔ u.statisticsAt path = some s := fun s =>
    hrow.mem_iff.trans (mem_listing_branches hu.wellFormed hu.sorted)
  cases hs : u.statisticsAt path with
  | none =>
      apply hvisits.statisticsAt_of_notMem ht
      intro hpath
      obtain ⟨⟨_, s⟩, hmem, rfl⟩ := List.mem_map.1 hpath
      rw [(hlisted s).1 hmem] at hs
      cases hs
  | some s =>
      have hdistinct : (row.map (·.1)).Nodup :=
        (hrow.map _).nodup_iff.2 (nodup_listingAll_below hu.wellFormed hu.sorted none [])
      exact hvisits.statisticsAt_of_mem ht hdistinct ((hlisted s).2 hs)

/-- Merging several trees adds their statistics at a path one after the other. -/
theorem statisticsAt_foldl_merge
    {trees : List CallTree}
    (htrees : ∀ u ∈ trees, u.Regular)
    (ht : t.Regular)
    (path : List UInt64) :
    (trees.foldl merge t).statisticsAt path =
      (trees.filterMap (·.statisticsAt path)).foldl
        (fun found s => some ((found.getD .zero).merge s)) (t.statisticsAt path) := by
  induction trees generalizing t with
  | nil => rfl
  | cons u rest ih =>
      obtain ⟨hu, hrest⟩ := List.forall_mem_cons.1 htrees
      rw [List.foldl_cons, ih hrest (regular_merge ht u), statisticsAt_merge ht hu, List.filterMap_cons]
      cases u.statisticsAt path with
      | none => rfl
      | some s => rfl

/-- **The order of merges** does not matter. -/
theorem statisticsAt_foldl_merge_perm
    {trees trees' : List CallTree}
    (hperm : trees.Perm trees')
    (htrees : ∀ u ∈ trees, u.Regular)
    (ht : t.Regular)
    (path : List UInt64) :
    (trees.foldl merge t).statisticsAt path = (trees'.foldl merge t).statisticsAt path := by
  have htrees' : ∀ u ∈ trees', u.Regular := fun u hu => htrees u (hperm.mem_iff.2 hu)
  rw [statisticsAt_foldl_merge htrees ht, statisticsAt_foldl_merge htrees' ht]
  refine (hperm.filterMap _).foldl_eq' ?_ _
  intro s _ s' _ found
  simp only [Option.getD_some, Statistics.merge_assoc, Statistics.merge_comm s s']

end Merge

/-! ## The stack of what is still to be visited -/

/-- A merge under way. -/
structure Walk where
  /-- Nodes of the other tree, each with the node here below which it goes; the first is visited next. -/
  pending : List (Option Nat × Nat)
  tree : CallTree

namespace Walk

/-- Puts the nodes linked at a position of the other tree on the stack, in their order. -/
def put (u : CallTree) (position parent : Option Nat) (pending : List (Option Nat × Nat)) :
    List (Option Nat × Nat) :=
  (u.linkedTo position).foldl (fun pending id => (parent, id) :: pending) pending

/-- All roots of the other tree are to be visited. -/
def start (t u : CallTree) : Walk := ⟨put u none none [], t⟩

/-- Visits the node on top of the stack; a node that does not exist would stay there for ever. -/
def step (u : CallTree) (w : Walk) : Walk :=
  match w.pending with
  | [] => w
  | (parent, source) :: rest =>
    match u.node? source with
    | none => w
    | some n =>
      let (id, tree) := w.tree.visit parent n.callee n.statistics
      ⟨put u (some source) (some id) rest, tree⟩

variable {u : CallTree}

theorem step_cons
    (hu : u.Regular)
    {position : Option Nat} {callee : UInt64} {source : Nat}
    (hchild : u.child? position callee = some source)
    (parent : Option Nat) (rest : List (Option Nat × Nat)) (t : CallTree) :
    step u ⟨(parent, source) :: rest, t⟩ =
      ⟨put u (some source) (some (t.visit parent callee (u.statisticsOf source)).1) rest,
        (t.visit parent callee (u.statisticsOf source)).2⟩ := by
  have hcallee := hu.wellFormed.callee_eq hchild
  obtain ⟨n, hnode, rfl⟩ := Option.map_eq_some_iff.1 hcallee
  simp only [step, hnode, statisticsOf, Option.map_some, Option.getD_some]

/-- The nodes below a position are visited, and what was on the stack before is left. -/
theorem iterate_put
    (hu : u.Regular)
    (position : Option Nat) (callers : List UInt64)
    (parent : Option Nat) (rest : List (Option Nat × Nat)) (t : CallTree) :
    (step u)^[(listingAll callers (u.branchesBelow position)).length] ⟨put u position parent rest, t⟩ =
      ⟨rest, mergeBranches parent (u.branchesBelow position) t⟩ := by
  induction position using below_induction hu.wellFormed generalizing callers parent rest t with
  | step position below =>
      -- The links of the position from any of them on: those further on lie above it on the stack.
      have hlinks : ∀ links : Links, (∀ p ∈ links, p ∈ u.linksOf position) → ∀ rest,
          (step u)^[(listingAll callers (links.map fun p => u.branch p.1 p.2)).length]
              ⟨(links.map (·.2)).foldl (fun pending id => (parent, id) :: pending) rest, t⟩ =
            ⟨rest, mergeBranches parent (links.map fun p => u.branch p.1 p.2) t⟩ := by
        intro links
        induction links with
        | nil =>
            intro _ rest
            rfl
        | cons link links ih =>
            obtain ⟨callee, source⟩ := link
            intro hmem rest
            obtain ⟨hlink, hmore⟩ := List.forall_mem_cons.1 hmem
            have hchild := (child?_iff_mem hu.sorted).2 hlink
            simp only [List.map_cons, List.foldl_cons, listingAll, List.length_append]
            rw [Function.iterate_add_apply, ih hmore, branch_eq hu.wellFormed hu.sorted, listing,
              List.length_cons, Function.iterate_succ_apply, step_cons hu hchild, below callee source hchild,
              mergeBranches, mergeBranch_node]
      exact hlinks (u.linksOf position) (fun _ hp => hp) rest

/-- **The walk of a merge ends** after as many visits as there are nodes, with nothing left on the stack
and with the merged tree. -/
theorem finishes
    (hu : u.Regular)
    (t : CallTree) :
    (step u)^[u.size] (start t u) = ⟨[], t.merge u⟩ := by
  have hlength : (listingAll [] u.branches).length = u.size := by
    simpa [size] using (perm_listing_branches hu.wellFormed hu.sorted).length_eq
  rw [← hlength]
  exact iterate_put hu none [] none [] t

end Walk

end CallProfiler.Profile.CallTree
