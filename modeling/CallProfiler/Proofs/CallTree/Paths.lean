import CallProfiler.Profile.CallTree

/-!
# Paths in a call tree

A node is named in two ways: by its number, and by the path of callees that leads to it from the
roots.  In a well-formed tree the two names determine each other, and every operation can be
described by what it does to the statistics at each path.

**Main statements.**
* `WellFormed.path_unique` and `WellFormed.exists_path`: each node has exactly one path.
* `WellFormed.entry` and `WellFormed.modifyStatistics`: the operations keep trees well-formed.
* `statisticsAt_entry` and `statisticsAt_modifyStatistics`: what they do to each path.
-/

namespace CallProfiler.Profile

namespace Links

/-- A link that is put in is found, and the others are found as before. -/
theorem find?_insert
    (callee other : UInt64) (id : Nat)
    (links : Links) :
    (links.insert callee id).find? other =
      if callee = other then some id else links.find? other := by
  induction links with
  | nil =>
      rfl
  | cons head rest ih =>
      obtain ⟨c, i⟩ := head
      unfold insert
      by_cases hlt : callee < c
      · simp [hlt, find?]
      · by_cases heq : c = callee
        · subst heq
          by_cases hother : c = other
          · simp [find?, hother]
          · simp [find?, hother]
        · simp only [hlt, if_false, heq, find?, ih]
          by_cases hc : c = other
          · have hne : callee ≠ other := by
              intro h
              exact heq (hc.trans h.symm)
            simp [hc, hne]
          · simp [hc]

end Links

namespace CallTree

/-- The node linked under a parent, or among the roots. -/
def child? (t : CallTree) (parent : Option Nat) (callee : UInt64) : Option Nat :=
  (t.linksOf parent).find? callee

/-- The statistics of the node at a path. -/
def statisticsAt (t : CallTree) (path : List UInt64) : Option Statistics :=
  (t.find? path).map (·.statistics)

/-- A path from the roots leads to a position: above the roots if it is empty, else to a node. -/
inductive Leads (t : CallTree) : List UInt64 → Option Nat → Prop
  | root : Leads t [] none
  | child {path : List UInt64} {parent : Option Nat} {callee : UInt64} {id : Nat} :
      Leads t path parent →
      t.child? parent callee = some id →
      Leads t (path ++ [callee]) (some id)

/-- Every link leads to a later node of the callee it is keyed by, and every node is linked exactly
once. -/
structure WellFormed (t : CallTree) : Prop where
  linked_lt : ∀ {parent callee id}, t.child? parent callee = some id → id < t.size
  callee_eq : ∀ {parent callee id}, t.child? parent callee = some id →
    (t.node? id).map (·.callee) = some callee
  forward : ∀ {p callee id}, t.child? (some p) callee = some id → p < id
  link_unique : ∀ {parent parent' callee callee' id}, t.child? parent callee = some id →
    t.child? parent' callee' = some id → parent = parent' ∧ callee = callee'
  linked : ∀ {id}, id < t.size → ∃ parent callee, t.child? parent callee = some id

/-- A position that nodes can be linked under. -/
def IsPosition (t : CallTree) (parent : Option Nat) : Prop := ∀ p, parent = some p → p < t.size

/-! ## Following paths -/

section Following

variable {t : CallTree}

theorem follow?_cons
    (parent : Option Nat) (callee : UInt64)
    (rest : List UInt64) :
    t.follow? parent (callee :: rest) =
      match t.child? parent callee with
      | none => none
      | some id => t.follow? (some id) rest := by
  rfl

/-- Following starts anew wherever a path has led. -/
theorem Leads.follow?_append
    {path : List UInt64} {position : Option Nat}
    (h : Leads t path position)
    (rest : List UInt64) :
    t.follow? none (path ++ rest) = t.follow? position rest := by
  induction h generalizing rest with
  | root =>
      rfl
  | @child path parent callee id _ hchild ih =>
      rw [List.append_assoc, ih]
      simp [follow?_cons, hchild]

theorem Leads.follow?_eq
    {path : List UInt64} {position : Option Nat}
    (h : Leads t path position) :
    t.follow? none path = position := by
  have hstart := h.follow?_append []
  rwa [List.append_nil] at hstart

theorem Leads.position_unique
    {path : List UInt64} {position position' : Option Nat}
    (h : Leads t path position)
    (h' : Leads t path position') :
    position = position' := by
  rw [← h.follow?_eq, h'.follow?_eq]

/-- A path followed from a position extends every path that leads to the position. -/
theorem Leads.append
    {start : List UInt64} {parent : Option Nat}
    (h : Leads t start parent)
    {path : List UInt64} {id : Nat}
    (hne : path ≠ [])
    (hfollow : t.follow? parent path = some id) :
    Leads t (start ++ path) (some id) := by
  induction path generalizing start parent with
  | nil =>
      exact absurd rfl hne
  | cons callee rest ih =>
      rw [follow?_cons] at hfollow
      cases hchild : t.child? parent callee with
      | none =>
          simp [hchild] at hfollow
      | some next =>
          simp only [hchild] at hfollow
          have hnext := Leads.child h hchild
          cases rest with
          | nil =>
              cases hfollow
              exact hnext
          | cons c more =>
              have hrest := ih hnext (by simp) hfollow
              rwa [List.append_assoc] at hrest

theorem leads_iff_follow?
    (path : List UInt64) (id : Nat) :
    Leads t path (some id) ↔ t.follow? none path = some id := by
  constructor
  · intro h
    exact h.follow?_eq
  · intro h
    have hne : path ≠ [] := by
      rintro rfl
      cases h
    exact Leads.append Leads.root hne h

/-- Only the empty path leads above the roots. -/
theorem Leads.eq_nil
    {path : List UInt64}
    (h : Leads t path none) :
    path = [] := by
  cases h
  rfl

theorem Leads.statisticsAt_eq
    {path : List UInt64} {id : Nat}
    (h : Leads t path (some id)) :
    t.statisticsAt path = (t.node? id).map (·.statistics) := by
  simp [statisticsAt, find?, h.follow?_eq]

/-- Where no path leads there are no statistics. -/
theorem statisticsAt_eq_none
    {path : List UInt64}
    (h : ∀ id, ¬ Leads t path (some id)) :
    t.statisticsAt path = none := by
  have hfollow : t.follow? none path = none := by
    cases hf : t.follow? none path with
    | none =>
        rfl
    | some id =>
        exact absurd ((leads_iff_follow? path id).2 hf) (h id)
  simp [statisticsAt, find?, hfollow]

end Following

/-! ## Well-formed trees -/

namespace WellFormed

variable {t : CallTree}

theorem isPosition
    (hwf : t.WellFormed)
    {path : List UInt64} {position : Option Nat}
    (h : Leads t path position) :
    t.IsPosition position := by
  rintro p rfl
  cases h with
  | child _ hchild =>
      exact hwf.linked_lt hchild

theorem isPosition_of_child?
    (hwf : t.WellFormed)
    {parent : Option Nat} {callee : UInt64} {id : Nat}
    (h : t.child? parent callee = some id) :
    t.IsPosition parent := by
  rintro p rfl
  exact Nat.lt_trans (hwf.forward h) (hwf.linked_lt h)

/-- Two paths to one position are the same. -/
theorem path_unique
    (hwf : t.WellFormed)
    {path path' : List UInt64} {position : Option Nat}
    (h : Leads t path position)
    (h' : Leads t path' position) :
    path = path' := by
  induction h generalizing path' with
  | root =>
      exact h'.eq_nil.symm
  | child _ hchild ih =>
      cases h' with
      | child hparent' hchild' =>
          obtain ⟨rfl, rfl⟩ := hwf.link_unique hchild hchild'
          rw [ih hparent']

/-- Every node has a path: its parent's number is smaller, so the parent has one. -/
theorem exists_path
    (hwf : t.WellFormed)
    {id : Nat}
    (hid : id < t.size) :
    ∃ path, Leads t path (some id) := by
  induction id using Nat.strongRecOn with
  | _ id ih =>
      obtain ⟨parent, callee, hchild⟩ := hwf.linked hid
      cases parent with
      | none =>
          exact ⟨[] ++ [callee], Leads.child Leads.root hchild⟩
      | some p =>
          have hp := hwf.forward hchild
          obtain ⟨path, hpath⟩ := ih p hp (Nat.lt_trans hp hid)
          exact ⟨path ++ [callee], Leads.child hpath hchild⟩

theorem exists_statistics
    (hwf : t.WellFormed)
    {path : List UInt64} {id : Nat}
    (h : Leads t path (some id)) :
    ∃ s, t.statisticsAt path = some s := by
  have hlt : id < t.nodes.size := hwf.isPosition h id rfl
  rw [h.statisticsAt_eq, node?, Array.getElem?_eq_getElem hlt]
  exact ⟨_, rfl⟩

theorem empty :
    CallTree.empty.WellFormed := by
  have hnone : ∀ parent callee, CallTree.empty.child? parent callee = none := by
    intro parent callee
    cases parent <;> rfl
  constructor
  · intro parent callee id h
    simp [hnone] at h
  · intro parent callee id h
    simp [hnone] at h
  · intro p callee id h
    simp [hnone] at h
  · intro parent parent' callee callee' id h
    simp [hnone] at h
  · intro id h
    simp [size, CallTree.empty] at h

end WellFormed

theorem statisticsAt_empty
    (path : List UInt64) :
    empty.statisticsAt path = none := by
  apply statisticsAt_eq_none
  intro id h
  have hlt := WellFormed.empty.isPosition h id rfl
  simp [size, empty] at hlt

/-! ## Changing statistics -/

section ModifyStatistics

variable (t : CallTree) (id : Nat) (f : Statistics → Statistics)

@[simp] theorem size_modifyStatistics :
    (t.modifyStatistics id f).size = t.size := by
  simp [size, CallTree.modifyStatistics]

theorem node?_modifyStatistics
    (i : Nat) :
    (t.modifyStatistics id f).node? i =
      if id = i then (t.node? i).map fun n => { n with statistics := f n.statistics }
      else t.node? i := by
  simp [node?, CallTree.modifyStatistics, Array.getElem?_modify]

@[simp] theorem linksOf_modifyStatistics
    (parent : Option Nat) :
    (t.modifyStatistics id f).linksOf parent = t.linksOf parent := by
  cases parent with
  | none =>
      rfl
  | some p =>
      have hnode := node?_modifyStatistics t id f p
      simp only [node?] at hnode
      simp only [linksOf, hnode]
      split
      · cases t.nodes[p]? <;> rfl
      · rfl

@[simp] theorem child?_modifyStatistics
    (parent : Option Nat) (callee : UInt64) :
    (t.modifyStatistics id f).child? parent callee = t.child? parent callee := by
  simp [child?]

variable {t}

@[simp] theorem leads_modifyStatistics
    {path : List UInt64} {position : Option Nat} :
    Leads (t.modifyStatistics id f) path position ↔ Leads t path position := by
  constructor
  · intro h
    induction h with
    | root =>
        exact Leads.root
    | child _ hchild ih =>
        rw [child?_modifyStatistics] at hchild
        exact Leads.child ih hchild
  · intro h
    induction h with
    | root =>
        exact Leads.root
    | child _ hchild ih =>
        rw [← child?_modifyStatistics t id f] at hchild
        exact Leads.child ih hchild

theorem WellFormed.modifyStatistics
    (hwf : t.WellFormed) :
    (t.modifyStatistics id f).WellFormed := by
  constructor
  · intro parent callee i h
    rw [child?_modifyStatistics] at h
    rw [size_modifyStatistics]
    exact hwf.linked_lt h
  · intro parent callee i h
    rw [child?_modifyStatistics] at h
    rw [node?_modifyStatistics]
    have hcallee := hwf.callee_eq h
    split
    · simpa [Option.map_map, Function.comp_def] using hcallee
    · exact hcallee
  · intro p callee i h
    rw [child?_modifyStatistics] at h
    exact hwf.forward h
  · intro parent parent' callee callee' i h h'
    rw [child?_modifyStatistics] at h h'
    exact hwf.link_unique h h'
  · intro i hi
    rw [size_modifyStatistics] at hi
    simpa using hwf.linked hi

/-- Only the node at the one path changes. -/
theorem statisticsAt_modifyStatistics
    (hwf : t.WellFormed)
    {path : List UInt64}
    (hpath : Leads t path (some id))
    (other : List UInt64) :
    (t.modifyStatistics id f).statisticsAt other =
      if other = path then (t.statisticsAt other).map f else t.statisticsAt other := by
  by_cases hother : ∃ i, Leads t other (some i)
  · obtain ⟨i, hi⟩ := hother
    have hi' := (leads_modifyStatistics id f).2 hi
    rw [hi'.statisticsAt_eq, hi.statisticsAt_eq, node?_modifyStatistics]
    by_cases heq : other = path
    · have hid : id = i := by
        subst heq
        simpa using hpath.position_unique hi
      simp [heq, hid, Option.map_map, Function.comp_def]
    · have hid : id ≠ i := by
        rintro rfl
        exact heq (hwf.path_unique hi hpath)
      simp [heq, hid]
  · have hnone : ∀ i, ¬ Leads t other (some i) := by
      intro i hi
      exact hother ⟨i, hi⟩
    have hnone' : ∀ i, ¬ Leads (t.modifyStatistics id f) other (some i) := by
      simpa using hnone
    rw [statisticsAt_eq_none hnone', statisticsAt_eq_none hnone]
    simp

end ModifyStatistics

/-! ## Finding or making a node -/

section Entry

variable {t : CallTree} {parent : Option Nat} {callee : UInt64}

/-- A node that is there is found. -/
theorem entry_of_child?
    {id : Nat}
    (h : t.child? parent callee = some id) :
    t.entry parent callee = (id, t) := by
  unfold child? at h
  simp [CallTree.entry, h]

/-- A node that is not there gets the next number and is linked under its parent. -/
theorem entry_of_child?_none
    (h : t.child? parent callee = none) :
    t.entry parent callee =
      (t.size, { t with nodes := t.nodes.push ⟨callee, .zero, []⟩ }.link parent callee t.size) := by
  unfold child? at h
  simp only [CallTree.entry, h]

theorem fst_entry_of_child?_none
    (h : t.child? parent callee = none) :
    (t.entry parent callee).1 = t.size := by
  rw [entry_of_child?_none h]

theorem size_entry_of_child?_none
    (h : t.child? parent callee = none) :
    (t.entry parent callee).2.size = t.size + 1 := by
  rw [entry_of_child?_none h]
  cases parent <;> simp [link, size]

/-- A new node is empty; the others keep their callees and statistics. -/
theorem node?_entry_of_child?_none
    (h : t.child? parent callee = none)
    (hparent : t.IsPosition parent)
    (i : Nat) :
    ((t.entry parent callee).2.node? i).map (fun n => (n.callee, n.statistics)) =
      if i = t.size then some (callee, .zero)
      else (t.node? i).map fun n => (n.callee, n.statistics) := by
  rw [entry_of_child?_none h]
  cases parent with
  | none =>
      simp only [link, node?, size, Array.getElem?_push]
      split <;> simp_all
  | some p =>
      have hp : p < t.nodes.size := hparent p rfl
      simp only [link, node?, size, Array.getElem?_modify, Array.getElem?_push]
      by_cases hi : i = t.nodes.size
      · have hpi : p ≠ t.nodes.size := by omega
        simp [hi, hpi]
      · by_cases hpi : p = i
        · simp [hi, hpi, Option.map_map, Function.comp_def]
        · simp [hi, hpi]

/-- A new node has no links, and its parent has one more. -/
theorem linksOf_entry_of_child?_none
    (h : t.child? parent callee = none)
    (hparent : t.IsPosition parent)
    (parent' : Option Nat) :
    (t.entry parent callee).2.linksOf parent' =
      if parent = parent' then (t.linksOf parent).insert callee t.size
      else t.linksOf parent' := by
  rw [entry_of_child?_none h]
  have hpush : ∀ p : Nat,
      ((t.nodes.push ⟨callee, .zero, []⟩)[p]?.map CallNode.callees).getD [] =
        (t.nodes[p]?.map CallNode.callees).getD [] := by
    intro p
    rw [Array.getElem?_push]
    by_cases hp : p = t.nodes.size
    · simp [hp]
    · simp [hp]
  cases parent with
  | none =>
      cases parent' with
      | none =>
          simp [link, linksOf]
      | some p =>
          simpa [link, linksOf] using hpush p
  | some q =>
      have hq : q < t.nodes.size := hparent q rfl
      cases parent' with
      | none =>
          simp [link, linksOf]
      | some p =>
          by_cases hqp : q = p
          · subst hqp
            have hne : q ≠ t.nodes.size := by omega
            simp [link, linksOf, Array.getElem?_modify, Array.getElem?_push, hne,
              Array.getElem?_eq_getElem hq]
          · simpa [link, linksOf, Array.getElem?_modify, hqp] using hpush p

/-- The node asked for is linked, and the other links are as before. -/
theorem child?_entry
    (hparent : t.IsPosition parent)
    (parent' : Option Nat) (callee' : UInt64) :
    (t.entry parent callee).2.child? parent' callee' =
      if parent = parent' ∧ callee = callee' then some (t.entry parent callee).1
      else t.child? parent' callee' := by
  cases h : t.child? parent callee with
  | some id =>
      rw [entry_of_child? h]
      split
      next hsame =>
        obtain ⟨rfl, rfl⟩ := hsame
        exact h
      next =>
        rfl
  | none =>
      rw [fst_entry_of_child?_none h]
      unfold child?
      rw [linksOf_entry_of_child?_none h hparent]
      by_cases hp : parent = parent'
      · subst hp
        rw [if_pos rfl, Links.find?_insert]
        simp
      · rw [if_neg hp, if_neg]
        exact fun hsame => hp hsame.1

theorem child?_entry_self
    (hparent : t.IsPosition parent) :
    (t.entry parent callee).2.child? parent callee = some (t.entry parent callee).1 := by
  rw [child?_entry hparent, if_pos ⟨rfl, rfl⟩]

/-- No link is lost. -/
theorem child?_entry_of_child?
    (hparent : t.IsPosition parent)
    {parent' : Option Nat} {callee' : UInt64} {id : Nat}
    (h : t.child? parent' callee' = some id) :
    (t.entry parent callee).2.child? parent' callee' = some id := by
  rw [child?_entry hparent]
  split
  next hsame =>
    obtain ⟨rfl, rfl⟩ := hsame
    rw [entry_of_child? h]
  next =>
    exact h

/-- A link is old, or it is the one asked for and its node is new. -/
theorem child?_entry_cases
    (hparent : t.IsPosition parent)
    {parent' : Option Nat} {callee' : UInt64} {id : Nat}
    (h : (t.entry parent callee).2.child? parent' callee' = some id) :
    t.child? parent' callee' = some id ∨
      (parent' = parent ∧ callee' = callee ∧ id = t.size ∧ t.child? parent callee = none) := by
  rw [child?_entry hparent] at h
  split at h
  next hsame =>
    obtain ⟨rfl, rfl⟩ := hsame
    cases hold : t.child? parent callee with
    | none =>
        rw [fst_entry_of_child?_none hold, Option.some.injEq] at h
        exact Or.inr ⟨rfl, rfl, h.symm, rfl⟩
    | some id' =>
        rw [entry_of_child? hold] at h
        exact Or.inl h
  next =>
    exact Or.inl h

/-- **Finding or making a node** keeps the tree well-formed. -/
theorem WellFormed.entry
    (hwf : t.WellFormed)
    (hparent : t.IsPosition parent) :
    (t.entry parent callee).2.WellFormed := by
  cases hold : t.child? parent callee with
  | some id =>
      rw [entry_of_child? hold]
      exact hwf
  | none =>
      have hsize := size_entry_of_child?_none hold
      have hnode := node?_entry_of_child?_none hold hparent
      constructor
      · intro parent' callee' id h
        rw [hsize]
        rcases child?_entry_cases hparent h with h | ⟨-, -, rfl, -⟩
        · exact Nat.lt_succ_of_lt (hwf.linked_lt h)
        · exact Nat.lt_succ_self _
      · intro parent' callee' id h
        have hid := congrArg (Option.map Prod.fst) (hnode id)
        rw [Option.map_map] at hid
        rcases child?_entry_cases hparent h with h | ⟨-, rfl, rfl, -⟩
        · have hlt := hwf.linked_lt h
          rw [if_neg (Nat.ne_of_lt hlt), Option.map_map] at hid
          exact hid.trans (hwf.callee_eq h)
        · simpa using hid
      · intro p callee' id h
        rcases child?_entry_cases hparent h with h | ⟨rfl, -, rfl, -⟩
        · exact hwf.forward h
        · exact hparent p rfl
      · intro parent₁ parent₂ callee₁ callee₂ id h₁ h₂
        rcases child?_entry_cases hparent h₁ with h₁ | ⟨rfl, rfl, rfl, -⟩
        · rcases child?_entry_cases hparent h₂ with h₂ | ⟨-, -, rfl, -⟩
          · exact hwf.link_unique h₁ h₂
          · exact absurd (hwf.linked_lt h₁) (Nat.lt_irrefl _)
        · rcases child?_entry_cases hparent h₂ with h₂ | ⟨rfl, rfl, -, -⟩
          · exact absurd (hwf.linked_lt h₂) (Nat.lt_irrefl _)
          · exact ⟨rfl, rfl⟩
      · intro id hid
        rw [hsize] at hid
        rcases Nat.lt_succ_iff_lt_or_eq.1 hid with hlt | rfl
        · obtain ⟨parent', callee', h⟩ := hwf.linked hlt
          exact ⟨parent', callee', child?_entry_of_child? hparent h⟩
        · refine ⟨parent, callee, ?_⟩
          rw [child?_entry_self hparent, fst_entry_of_child?_none hold]

/-- No path is lost. -/
theorem Leads.entry
    (hparent : t.IsPosition parent)
    {path : List UInt64} {position : Option Nat}
    (h : Leads t path position) :
    Leads (t.entry parent callee).2 path position := by
  induction h with
  | root =>
      exact Leads.root
  | child _ hchild ih =>
      exact Leads.child ih (child?_entry_of_child? hparent hchild)

/-- The path of the parent, made longer by the callee, leads to the node. -/
theorem leads_entry
    (hwf : t.WellFormed)
    {path : List UInt64}
    (hpath : Leads t path parent) :
    Leads (t.entry parent callee).2 (path ++ [callee]) (some (t.entry parent callee).1) := by
  have hparent := hwf.isPosition hpath
  exact Leads.child (hpath.entry hparent) (child?_entry_self hparent)

/-- A path that leads somewhere afterwards is old, or it is the one asked for. -/
theorem leads_entry_cases
    (hwf : t.WellFormed)
    {path : List UInt64}
    (hpath : Leads t path parent)
    {path' : List UInt64} {position : Option Nat}
    (h : Leads (t.entry parent callee).2 path' position) :
    Leads t path' position ∨
      (path' = path ++ [callee] ∧ position = some t.size ∧ t.child? parent callee = none) := by
  have hparent := hwf.isPosition hpath
  induction h with
  | root =>
      exact Or.inl Leads.root
  | child _ hchild ih =>
      rcases child?_entry_cases hparent hchild with hchild | ⟨rfl, rfl, rfl, hnone⟩
      · rcases ih with hbefore | ⟨-, rfl, -⟩
        · exact Or.inl (Leads.child hbefore hchild)
        · have hnew := hwf.isPosition_of_child? hchild _ rfl
          exact absurd hnew (Nat.lt_irrefl _)
      · rcases ih with hbefore | ⟨-, rfl, -⟩
        · cases hwf.path_unique hbefore hpath
          exact Or.inr ⟨rfl, rfl, hnone⟩
        · exact absurd (hparent _ rfl) (Nat.lt_irrefl _)

/-- A node is made at the one path if there is none; nothing else changes. -/
theorem statisticsAt_entry
    (hwf : t.WellFormed)
    {path : List UInt64}
    (hpath : Leads t path parent)
    (other : List UInt64) :
    (t.entry parent callee).2.statisticsAt other =
      if other = path ++ [callee] then some ((t.statisticsAt other).getD .zero)
      else t.statisticsAt other := by
  have hparent := hwf.isPosition hpath
  cases hold : t.child? parent callee with
  | some id =>
      have hthere : Leads t (path ++ [callee]) (some id) := Leads.child hpath hold
      obtain ⟨s, hs⟩ := hwf.exists_statistics hthere
      rw [entry_of_child? hold]
      split
      next heq =>
        subst heq
        rw [hs]
        rfl
      next =>
        rfl
  | none =>
      have hnode := node?_entry_of_child?_none hold hparent
      have hstat : ∀ i, ((t.entry parent callee).2.node? i).map (·.statistics) =
          if i = t.size then some .zero else (t.node? i).map (·.statistics) := by
        intro i
        have hi := congrArg (Option.map Prod.snd) (hnode i)
        rw [Option.map_map] at hi
        refine hi.trans ?_
        split
        · rfl
        · rw [Option.map_map]
          rfl
      have hfresh : ∀ id, ¬ Leads t (path ++ [callee]) (some id) := by
        intro id h
        have hstop := hpath.follow?_append [callee]
        rw [follow?_cons, hold, h.follow?_eq] at hstop
        cases hstop
      by_cases hother : ∃ id, Leads t other (some id)
      · obtain ⟨id, hid⟩ := hother
        have hne : other ≠ path ++ [callee] := by
          rintro rfl
          exact hfresh id hid
        have hlt := hwf.isPosition hid id rfl
        rw [if_neg hne, (hid.entry hparent).statisticsAt_eq, hid.statisticsAt_eq, hstat,
          if_neg (Nat.ne_of_lt hlt)]
      · have hnone : ∀ id, ¬ Leads t other (some id) := by
          intro id hid
          exact hother ⟨id, hid⟩
        rw [statisticsAt_eq_none hnone]
        by_cases heq : other = path ++ [callee]
        · subst heq
          rw [(leads_entry hwf hpath).statisticsAt_eq, fst_entry_of_child?_none hold, hstat,
            if_pos rfl, if_pos rfl]
          rfl
        · rw [if_neg heq]
          apply statisticsAt_eq_none
          intro id hid
          rcases leads_entry_cases hwf hpath hid with hid | ⟨rfl, -, -⟩
          · exact hnone id hid
          · exact heq rfl

end Entry

end CallTree

end CallProfiler.Profile
