import CallProfiler.Proofs.CallTree.Linkage

/-!
# A call tree as branches

Nodes are kept by number, with links to those below them.  Going through the links from the roots
gives the tree as branches.  Since every link leads to a later node and callees stand in ascending
order, every node is met exactly once, below its caller, and siblings stand in ascending order.

**Main statements.**
* `Sorted.entry`, `Sorted.modifyStatistics`: the operations keep callees in ascending order.
* `mem_listing_branches`: the branches hold the statistics at every path and nothing else.
* `perm_listing_branches`: the branches hold every node once, at its path.
-/

namespace CallProfiler.Profile

namespace Links

/-- Callees in ascending order. -/
def Sorted (links : Links) : Prop := links.Pairwise fun p q => p.1 < q.1

theorem mem_insert
    {callee : UInt64} {id : Nat} {links : Links} {p : UInt64 × Nat}
    (h : p ∈ links.insert callee id) :
    p.1 = callee ∨ p ∈ links := by
  induction links with
  | nil =>
      exact Or.inl (congrArg Prod.fst (List.mem_singleton.1 h))
  | cons head rest ih =>
      obtain ⟨c, i⟩ := head
      unfold insert at h
      split at h
      · rcases List.mem_cons.1 h with rfl | h
        · exact Or.inl rfl
        · exact Or.inr h
      · split at h
        next heq =>
          rcases List.mem_cons.1 h with rfl | h
          · exact Or.inl heq
          · exact Or.inr (List.mem_cons_of_mem _ h)
        next =>
          rcases List.mem_cons.1 h with rfl | h
          · exact Or.inr List.mem_cons_self
          · exact (ih h).imp_right (List.mem_cons_of_mem _)

theorem Sorted.insert
    {links : Links}
    (h : links.Sorted)
    (callee : UInt64) (id : Nat) :
    (links.insert callee id).Sorted := by
  induction links with
  | nil =>
      exact List.pairwise_singleton _ _
  | cons head rest ih =>
      obtain ⟨c, i⟩ := head
      obtain ⟨hhead, hrest⟩ := List.pairwise_cons.1 h
      unfold Links.insert
      split
      next hlt =>
        refine List.Pairwise.cons ?_ h
        intro p hp
        rcases List.mem_cons.1 hp with rfl | hp
        · exact hlt
        · exact UInt64.lt_trans hlt (hhead p hp)
      next hge =>
        split
        · exact List.Pairwise.cons hhead hrest
        next hne =>
          refine List.Pairwise.cons ?_ (ih hrest)
          intro p hp
          rcases mem_insert hp with hnew | hp
          · rw [hnew]
            exact UInt64.lt_of_le_of_ne (UInt64.not_lt.1 hge) hne
          · exact hhead p hp

/-- In ascending order every link that can be met is the one that is found. -/
theorem Sorted.find?_eq_some_iff
    {links : Links}
    (h : links.Sorted)
    {callee : UInt64} {id : Nat} :
    links.find? callee = some id ↔ (callee, id) ∈ links := by
  refine ⟨mem_of_find?, ?_⟩
  intro hmem
  induction links with
  | nil =>
      cases hmem
  | cons head rest ih =>
      obtain ⟨c, i⟩ := head
      obtain ⟨hhead, hrest⟩ := List.pairwise_cons.1 h
      unfold find?
      rcases List.mem_cons.1 hmem with heq | hmem
      · cases heq
        rw [if_pos rfl]
      · rw [if_neg (UInt64.ne_of_lt (hhead _ hmem))]
        exact ih hrest hmem

end Links

namespace CallTree

/-- Everywhere in the tree callees stand in ascending order. -/
def Sorted (t : CallTree) : Prop := ∀ parent, (t.linksOf parent).Sorted

theorem sorted_empty :
    empty.Sorted := by
  intro parent
  cases parent <;> exact List.Pairwise.nil

variable {t : CallTree}

theorem Sorted.modifyStatistics
    (h : t.Sorted)
    (id : Nat) (f : Statistics → Statistics) :
    (t.modifyStatistics id f).Sorted := by
  intro parent
  rw [linksOf_modifyStatistics]
  exact h parent

/-- **Finding or making a node** keeps callees in ascending order. -/
theorem Sorted.entry
    (h : t.Sorted)
    {parent : Option Nat} {callee : UInt64}
    (hparent : t.IsPosition parent) :
    (t.entry parent callee).2.Sorted := by
  cases hold : t.child? parent callee with
  | some id =>
      rw [entry_of_child? hold]
      exact h
  | none =>
      intro other
      rw [linksOf_entry_of_child?_none hold hparent]
      split
      · exact (h parent).insert callee t.size
      · exact h other

end CallTree

namespace CallBranch

/-- The function of a branch. -/
def callee : CallBranch → UInt64
  | .node callee _ _ => callee

/-- The branches below the first node of a branch. -/
def callees : CallBranch → List CallBranch
  | .node _ _ callees => callees

mutual

/-- The nodes of a branch with their paths, each before those below it. -/
def listing (callers : List UInt64) : CallBranch → List (List UInt64 × Statistics)
  | .node callee statistics callees =>
    (callers ++ [callee], statistics) :: listingAll (callers ++ [callee]) callees

/-- The nodes of several branches with their paths. -/
def listingAll (callers : List UInt64) : List CallBranch → List (List UInt64 × Statistics)
  | [] => []
  | b :: rest => listing callers b ++ listingAll callers rest

end

theorem listingAll_eq_flatMap
    (callers : List UInt64) (branches : List CallBranch) :
    listingAll callers branches = branches.flatMap (listing callers) := by
  induction branches with
  | nil => rfl
  | cons b rest ih => rw [listingAll, ih, List.flatMap_cons]

/-- Siblings stand in ascending order, at every depth. -/
inductive Ascending : List CallBranch → Prop
  | intro {branches : List CallBranch} :
      branches.Pairwise (fun b b' => b.callee < b'.callee) →
      (∀ b ∈ branches, Ascending b.callees) →
      Ascending branches

end CallBranch

namespace CallTree

open CallBranch

variable {t : CallTree}

/-- The statistics of the node that a path leads to from a position. -/
def statisticsBelow (t : CallTree) (parent : Option Nat) (path : List UInt64) : Option Statistics :=
  ((t.follow? parent path).bind t.node?).map (·.statistics)

/-- The branches below a position. -/
def branchesBelow (t : CallTree) (parent : Option Nat) : List CallBranch :=
  (t.linksOf parent).map fun p => t.branch p.1 p.2

section Below

variable (hwf : t.WellFormed)

include hwf in
/-- What holds of a position if it holds of all nodes linked there holds everywhere, since links lead to
later nodes. -/
theorem below_induction
    {motive : Option Nat → Prop}
    (step : ∀ parent, (∀ callee id, t.child? parent callee = some id → motive (some id)) → motive parent)
    (parent : Option Nat) :
    motive parent := by
  have hnode : ∀ id, motive (some id) := by
    intro id
    induction hroom : t.size - id using Nat.strongRecOn generalizing id with
    | _ room ih =>
        apply step
        intro callee child hchild
        have hforward := hwf.forward hchild
        have hlt := hwf.linked_lt hchild
        exact ih (t.size - child) (by omega) child rfl
  cases parent with
  | none => exact step none fun _ id _ => hnode id
  | some id => exact hnode id

theorem statisticsBelow_cons
    (parent : Option Nat) (callee : UInt64) (rest : List UInt64) :
    t.statisticsBelow parent (callee :: rest) =
      (t.child? parent callee).bind fun id => t.statisticsBelow (some id) rest := by
  unfold statisticsBelow
  rw [follow?_cons]
  cases t.child? parent callee <;> rfl

theorem statisticsBelow_nil
    {id : Nat}
    (h : id < t.size) :
    t.statisticsBelow (some id) [] = some (t.statisticsOf id) := by
  have hnode : t.node? id = some t.nodes[id] := Array.getElem?_eq_getElem h
  simp [statisticsBelow, follow?, statisticsOf, hnode]

end Below

section Branches

variable (hwf : t.WellFormed) (hsorted : t.Sorted)

include hsorted in
theorem child?_iff_mem
    {parent : Option Nat} {callee : UInt64} {id : Nat} :
    t.child? parent callee = some id ↔ (callee, id) ∈ t.linksOf parent :=
  (hsorted parent).find?_eq_some_iff

include hwf hsorted in
/-- No link is left out. -/
theorem branch_eq
    (callee : UInt64) (id : Nat) :
    t.branch callee id = .node callee (t.statisticsOf id) (t.branchesBelow (some id)) := by
  have hall : ∀ p ∈ t.linksOf (some id),
      (if _forward : id < p.2 ∧ p.2 < t.size then some (t.branch p.1 p.2) else none) =
        some (t.branch p.1 p.2) := by
    rintro ⟨c, child⟩ hmem
    have hchild := (child?_iff_mem hsorted).2 hmem
    rw [dif_pos ⟨hwf.forward hchild, hwf.linked_lt hchild⟩]
  rw [branch, branchesBelow, ← List.filterMap_eq_map]
  congr 1
  exact List.filterMap_congr hall

include hwf hsorted in
/-- **The branches below a position** hold the statistics at every path from there. -/
theorem mem_listingAll_below
    (parent : Option Nat) (callers : List UInt64) {path : List UInt64} {s : Statistics} :
    (path, s) ∈ listingAll callers (t.branchesBelow parent) ↔
      ∃ callee rest, path = callers ++ callee :: rest ∧
        t.statisticsBelow parent (callee :: rest) = some s := by
  induction parent using below_induction hwf generalizing callers with
  | step parent ih =>
      rw [listingAll_eq_flatMap, branchesBelow, List.flatMap_map]
      simp only [List.mem_flatMap, Prod.exists, branch_eq hwf hsorted, listing, List.mem_cons,
        statisticsBelow_cons, Option.bind_eq_some_iff, ← child?_iff_mem hsorted]
      constructor
      · rintro ⟨callee, id, hchild, heq | hmem⟩
        · cases heq
          exact ⟨callee, [], rfl, id, hchild, statisticsBelow_nil (hwf.linked_lt hchild)⟩
        · obtain ⟨next, rest, rfl, hs⟩ := (ih callee id hchild (callers ++ [callee])).1 hmem
          exact ⟨callee, next :: rest, by simp, id, hchild, hs⟩
      · rintro ⟨callee, rest, rfl, id, hchild, hs⟩
        refine ⟨callee, id, hchild, ?_⟩
        cases rest with
        | nil =>
            rw [statisticsBelow_nil (hwf.linked_lt hchild)] at hs
            cases hs
            exact Or.inl rfl
        | cons next rest =>
            exact Or.inr ((ih callee id hchild (callers ++ [callee])).2 ⟨next, rest, by simp, hs⟩)

include hwf hsorted in
/-- All paths of a branch go through its first node. -/
theorem exists_of_mem_paths
    {callers path : List UInt64} {callee : UInt64} {id : Nat}
    (h : path ∈ ((t.branch callee id).listing callers).map (·.1)) :
    ∃ rest, path = callers ++ callee :: rest := by
  rw [branch_eq hwf hsorted, listing, List.map_cons, List.mem_cons] at h
  rcases h with rfl | h
  · exact ⟨[], rfl⟩
  · obtain ⟨⟨_, s⟩, hmem, rfl⟩ := List.mem_map.1 h
    obtain ⟨next, rest, heq, -⟩ := (mem_listingAll_below hwf hsorted _ _).1 hmem
    exact ⟨next :: rest, by simp [heq]⟩

include hwf hsorted in
/-- No path comes twice: siblings differ, and so do all paths through them. -/
theorem nodup_listingAll_below
    (parent : Option Nat) (callers : List UInt64) :
    ((listingAll callers (t.branchesBelow parent)).map (·.1)).Nodup := by
  induction parent using below_induction hwf generalizing callers with
  | step parent ih =>
      rw [listingAll_eq_flatMap, branchesBelow, List.flatMap_map, List.map_flatMap, List.nodup_flatMap]
      constructor
      · rintro ⟨callee, id⟩ hmem
        have hchild := (child?_iff_mem hsorted).2 hmem
        rw [branch_eq hwf hsorted, listing, List.map_cons, List.nodup_cons]
        refine ⟨?_, ih callee id hchild (callers ++ [callee])⟩
        intro hagain
        obtain ⟨⟨_, s⟩, hbelow, heq⟩ := List.mem_map.1 hagain
        obtain ⟨next, rest, rfl, -⟩ := (mem_listingAll_below hwf hsorted _ _).1 hbelow
        simp at heq
      · refine (hsorted parent).imp ?_
        rintro ⟨callee, id⟩ ⟨callee', id'⟩ hlt path hpath hpath'
        obtain ⟨rest, rfl⟩ := exists_of_mem_paths hwf hsorted hpath
        obtain ⟨rest', heq⟩ := exists_of_mem_paths hwf hsorted hpath'
        exact UInt64.ne_of_lt hlt (List.cons.inj (List.append_cancel_left heq)).1

include hwf hsorted in
/-- Siblings stand in the order of the links. -/
theorem ascending_below
    (parent : Option Nat) :
    Ascending (t.branchesBelow parent) := by
  induction parent using below_induction hwf with
  | step parent ih =>
      refine Ascending.intro ?_ ?_
      · refine List.pairwise_map.2 ((hsorted parent).imp ?_)
        rintro ⟨callee, id⟩ ⟨callee', id'⟩ hlt
        rwa [branch_eq hwf hsorted, branch_eq hwf hsorted]
      · intro b hb
        obtain ⟨⟨callee, id⟩, hmem, rfl⟩ := List.mem_map.1 hb
        rw [branch_eq hwf hsorted]
        exact ih callee id ((child?_iff_mem hsorted).2 hmem)

end Branches

/-! ## The whole tree -/

section Whole

variable (hwf : t.WellFormed) (hsorted : t.Sorted)

include hwf hsorted in
/-- **The branches** hold the statistics at every path and nothing else. -/
theorem mem_listing_branches
    {path : List UInt64} {s : Statistics} :
    (path, s) ∈ listingAll [] t.branches ↔ t.statisticsAt path = some s := by
  refine (mem_listingAll_below hwf hsorted none []).trans ?_
  constructor
  · rintro ⟨callee, rest, rfl, hs⟩
    exact hs
  · intro hs
    cases path with
    | nil => cases hs
    | cons callee rest => exact ⟨callee, rest, rfl, hs⟩

/-- A path with statistics leads to a node, which has them. -/
theorem exists_of_statisticsAt
    {path : List UInt64} {s : Statistics}
    (h : t.statisticsAt path = some s) :
    ∃ id n, t.Leads path (some id) ∧ t.node? id = some n ∧ n.statistics = s := by
  unfold statisticsAt find? at h
  obtain ⟨n, hn, hs⟩ := Option.map_eq_some_iff.1 h
  obtain ⟨id, hfollow, hnode⟩ := Option.bind_eq_some_iff.1 hn
  exact ⟨id, n, (leads_iff_follow? path id).2 hfollow, hnode, hs⟩

include hwf in
/-- A path ends with the callee of the node it leads to. -/
theorem getLast?_of_leads
    {path : List UInt64} {id : Nat} {n : CallNode}
    (h : t.Leads path (some id))
    (hnode : t.node? id = some n) :
    path.getLast? = some n.callee := by
  cases h with
  | child _ hchild =>
      have hcallee := hwf.callee_eq hchild
      rw [hnode] at hcallee
      cases hcallee
      exact List.getLast?_concat

include hwf hsorted in
/-- **Every node once**: following the paths of the branches from the roots gives the numbers of all
nodes, and what stands at the end of a path is what is kept of the node. -/
theorem perm_listing_branches :
    ((listingAll [] t.branches).map fun l => (t.follow? none l.1, l.1.getLast?, l.2)).Perm
      (t.nodes.toList.zipIdx.map fun n => (some n.2, some n.1.callee, n.1.statistics)) := by
  have hpaths := nodup_listingAll_below hwf hsorted none []
  rw [List.perm_ext_iff_of_nodup]
  · rintro ⟨id, callee, s⟩
    simp only [List.mem_map, Prod.exists, mem_listing_branches hwf hsorted,
      List.mem_zipIdx_iff_getElem?, Prod.mk.injEq]
    constructor
    · rintro ⟨path, s, hs, rfl, rfl, rfl⟩
      obtain ⟨id, n, hleads, hnode, rfl⟩ := exists_of_statisticsAt hs
      refine ⟨n, id, ?_, hleads.follow?_eq.symm, (getLast?_of_leads hwf hleads hnode).symm, rfl⟩
      rw [Array.getElem?_toList]
      exact hnode
    · rintro ⟨n, id, hnode, rfl, rfl, rfl⟩
      rw [Array.getElem?_toList] at hnode
      obtain ⟨hlt, -⟩ := Array.getElem?_eq_some_iff.1 hnode
      obtain ⟨path, hleads⟩ := hwf.exists_path hlt
      refine ⟨path, n.statistics, ?_, hleads.follow?_eq, getLast?_of_leads hwf hleads hnode, rfl⟩
      rw [hleads.statisticsAt_eq, node?, hnode]
      rfl
  · have hinjective : ((listingAll [] t.branches).map fun l => t.follow? none l.1).Nodup := by
      change ((listingAll [] t.branches).map (t.follow? none ∘ Prod.fst)).Nodup
      rw [← List.map_map]
      refine hpaths.map_on ?_
      rintro path hpath path' hpath' heq
      obtain ⟨⟨_, s⟩, hmem, rfl⟩ := List.mem_map.1 hpath
      obtain ⟨⟨_, s'⟩, hmem', rfl⟩ := List.mem_map.1 hpath'
      obtain ⟨id, -, hleads, -⟩ := exists_of_statisticsAt ((mem_listing_branches hwf hsorted).1 hmem)
      obtain ⟨id', -, hleads', -⟩ := exists_of_statisticsAt ((mem_listing_branches hwf hsorted).1 hmem')
      simp only [hleads.follow?_eq, hleads'.follow?_eq] at heq
      exact hwf.path_unique hleads (heq ▸ hleads')
    apply List.Nodup.of_map (·.1)
    rw [List.map_map]
    exact hinjective
  · have hnumbers : ((t.nodes.toList.zipIdx).map Prod.snd).Nodup := by
      rw [List.zipIdx_map_snd]
      exact List.nodup_range'
    apply List.Nodup.of_map (·.1)
    rw [List.map_map]
    have hsome := hnumbers.map (f := some) fun _ _ heq => Option.some.inj heq
    rw [List.map_map] at hsome
    exact hsome

end Whole

end CallTree

end CallProfiler.Profile
