import CallProfiler.Proofs.CallTree.Totals
import CallProfiler.Proofs.Replay.Placement

/-!
# Trees in use

Many trees stand side by side and are worked on in any order: nodes are looked for and made, statistics
are written, one tree is merged into another one, a tree is cleared, and events are replayed onto a tree
by one of many stacks, each with calls that may be open since it worked on another tree.  Every such
operation lets a tree grow or empties it.

**Main statements.**
* `CallTree.Regular.consistent`: the links of a regular tree lead to every node in exactly one way, and
  following a path finds the node there.
* `grows_update`: a batch of events makes nodes at folded paths only.
* `Grove.consistent_run`: what holds of every tree after any operations, and what later ones keep.
* `Grove.merge_run`: a merge of any two trees, and of any number of them, after any operations.
-/

namespace CallProfiler.Profile

/-! ## Routes -/

namespace CallTree

/-- Links that can be gone along from the roots, one after the other, to a position. -/
inductive Route (t : CallTree) : Links → Option Nat → Prop
  | root : Route t [] none
  | link {route : Links} {parent : Option Nat} {callee : UInt64} {id : Nat} :
      Route t route parent →
      (callee, id) ∈ t.linksOf parent →
      Route t (route ++ [(callee, id)]) (some id)

/-- The functions along a route. -/
def pathOf (route : Links) : List UInt64 := route.map (·.1)

/-- One route leads to every node, along links that are keyed by the functions of their nodes, from
callers to callees with larger numbers, and a path is found if it is that of a route. -/
structure Consistent (t : CallTree) : Prop where
  exists_unique_route : ∀ id, id < t.size → ∃! route, t.Route route (some id)
  lt_size : ∀ {route id}, t.Route route (some id) → id < t.size
  callee_eq : ∀ {parent callee id}, (callee, id) ∈ t.linksOf parent →
    (t.node? id).map (·.callee) = some callee
  forward : ∀ {parent callee id}, (callee, id) ∈ t.linksOf (some parent) → parent < id
  find?_route : ∀ {route id}, t.Route route (some id) → t.find? (pathOf route) = t.node? id
  find?_other : ∀ {path}, (∀ route id, t.Route route (some id) → pathOf route ≠ path) →
    t.find? path = none
  route_of_path : ∀ {route route' id id'}, t.Route route (some id) → t.Route route' (some id') →
    pathOf route = pathOf route' → id = id'

section Routes

variable {t : CallTree}

theorem pathOf_append_singleton
    (route : Links) (callee : UInt64) (id : Nat) :
    pathOf (route ++ [(callee, id)]) = pathOf route ++ [callee] := by
  simp [pathOf]

/-- The path of a route leads where the route goes. -/
theorem Route.leads
    (ht : t.Regular)
    {route : Links} {position : Option Nat}
    (h : t.Route route position) :
    t.Leads (pathOf route) position := by
  induction h with
  | root => exact .root
  | @link route parent callee id _ hlink ih =>
      rw [pathOf_append_singleton]
      exact .child ih ((child?_iff_mem ht.sorted).2 hlink)

/-- There is a route along every path. -/
theorem exists_route
    {path : List UInt64} {position : Option Nat}
    (h : t.Leads path position) :
    ∃ route, t.Route route position ∧ pathOf route = path := by
  induction h with
  | root => exact ⟨[], .root, rfl⟩
  | @child path parent callee id _ hchild ih =>
      obtain ⟨route, hroute, rfl⟩ := ih
      exact ⟨route ++ [(callee, id)], .link hroute (Links.mem_of_find? hchild),
        pathOf_append_singleton route callee id⟩

/-- Two routes to one position are the same. -/
theorem Route.unique
    (ht : t.Regular)
    {route route' : Links} {position : Option Nat}
    (h : t.Route route position)
    (h' : t.Route route' position) :
    route = route' := by
  induction h generalizing route' with
  | root =>
      cases h'
      rfl
  | @link route parent callee id _ hlink ih =>
      obtain @⟨-⟩ | @⟨before, parent', callee', _, hbefore, hlink'⟩ := h'
      have hchild := (child?_iff_mem ht.sorted).2 hlink
      have hchild' := (child?_iff_mem ht.sorted).2 hlink'
      obtain ⟨rfl, rfl⟩ := ht.wellFormed.link_unique hchild hchild'
      rw [ih hbefore]

/-- **A regular tree** is consistent. -/
theorem Regular.consistent
    (ht : t.Regular) :
    t.Consistent where
  exists_unique_route := by
    intro id hid
    obtain ⟨path, hpath⟩ := ht.wellFormed.exists_path hid
    obtain ⟨route, hroute, -⟩ := exists_route hpath
    exact ⟨route, hroute, fun _ hother => hother.unique ht hroute⟩
  lt_size := by
    intro route id hroute
    exact ht.wellFormed.isPosition (hroute.leads ht) id rfl
  callee_eq := by
    intro parent callee id hlink
    exact ht.wellFormed.callee_eq ((child?_iff_mem ht.sorted).2 hlink)
  forward := by
    intro parent callee id hlink
    exact ht.wellFormed.forward ((child?_iff_mem ht.sorted).2 hlink)
  find?_route := by
    intro route id hroute
    rw [find?, (hroute.leads ht).follow?_eq]
    rfl
  find?_other := by
    intro path hother
    cases hfollow : t.follow? none path with
    | none => rw [find?, hfollow, Option.bind_none]
    | some id =>
        obtain ⟨route, hroute, hpath⟩ := exists_route ((leads_iff_follow? path id).2 hfollow)
        exact absurd hpath (hother route id hroute)
  route_of_path := by
    intro route route' id id' hroute hroute' heq
    have hleads := hroute.leads ht
    rw [heq] at hleads
    exact Option.some.inj (hleads.position_unique (hroute'.leads ht))

/-- The last link of a route is keyed by the function of the node it leads to. -/
theorem Route.callee_eq
    (ht : t.Regular)
    {route : Links} {id : Nat}
    (h : t.Route route (some id)) :
    (t.node? id).map (·.callee) = route.getLast?.map (·.1) := by
  cases h with
  | link _ hlink =>
      rw [List.getLast?_concat]
      exact ht.consistent.callee_eq hlink

/-- Links stay where they are while a tree grows. -/
theorem Route.grows
    {P : List UInt64 → Prop} {t' : CallTree}
    (h : Grows P t t')
    (ht : t.Regular)
    {route : Links} {position : Option Nat}
    (hroute : t.Route route position) :
    t'.Route route position := by
  induction hroute with
  | root => exact .root
  | @link route parent callee id _ hlink ih =>
      have hchild := h.child?_eq_some ht ((child?_iff_mem ht.sorted).2 hlink)
      exact .link ih (Links.mem_of_find? hchild)

end Routes

end CallTree

/-! ## Batches of events -/

open CallTree (Grows Change)

theorem kept_grows
    {t : CallTree}
    (ht : t.Regular) :
    Kept fun t' frames => Grows Folded t t' ∧ Placed t' frames where
  push := by
    rintro t' frames ⟨hgrows, hplaced⟩ f
    have hwf := (Grows.regular hgrows ht).wellFormed
    refine ⟨?_, hplaced.push hwf f⟩
    by_cases hrun : (frames.map (·.callee)).take 2 = [f.callee, f.callee]
    · obtain ⟨node, -, hchild⟩ := childNode_of_run hrun
      rw [hchild]
      exact hgrows
    · have hpath : framePath frames ++ [f.callee] = framePath (f :: frames) :=
        ((shorten_reverse_cons f.callee (frames.map Frame.callee)).trans (if_neg hrun)).symm
      rw [childNode_of_not_run hrun]
      refine hgrows.tail (.entry hplaced.leads_head ?_)
      rw [hpath]
      exact folded_shorten _
  ends := by
    rintro t' f outer ⟨hgrows, _ | ⟨-, houter⟩⟩ level inclusive exclusive
    exact ⟨hgrows.tail (.statistics _ _), houter.modifyStatistics _ _⟩
  charge := fun h o observed callee => ⟨h.1, h.2.charge o observed callee⟩

/-- **A batch of events** makes nodes at folded paths only, whatever calls were open. -/
theorem grows_update
    {t : CallTree}
    (ht : t.Regular)
    (s : CallStack) (events : List Event) :
    Grows Folded t (s.update t events).2 :=
  ((kept_grows ht).update ⟨.refl, .nil⟩ s events).1

/-! ## Operations -/

/-- What is done to one of many trees. -/
inductive Operation where
  /-- A node is looked for below a node, or among the roots, and is made if it is not there. -/
  | entry (tree : Nat) (parent : Option Nat) (callee : UInt64)
  /-- The statistics of a node are replaced. -/
  | write (tree id : Nat) (s : Statistics)
  /-- Another tree is merged into the first. -/
  | merge (tree other : Nat)
  | clear (tree : Nat)
  /-- Events are replayed onto a tree by a stack. -/
  | update (tree stack : Nat) (events : List Event)

namespace Operation

/-- Nothing but stacks makes nodes in the trees of a group: no node is looked for in them, and only trees
of the group are merged into them. -/
def Within (group : Nat → Prop) : Operation → Prop
  | .entry k _ _ => ¬ group k
  | .merge k other => group k → group other
  | _ => True

end Operation

/-- Trees and stacks by number. -/
structure Grove where
  tree : Nat → CallTree
  stack : Nat → CallStack
  /-- The numbers that looking for nodes in a tree has given since the tree was last cleared. -/
  given : Nat → List Nat

namespace Grove

open Function (update)

/-- All trees are empty, and no stack has an open call. -/
def start (overheads : Nat → Overhead) : Grove where
  tree := fun _ => .empty
  stack := fun i => .empty (overheads i)
  given := fun _ => []

/-- Does one operation.  Nothing can be looked for below a node that is not there. -/
def step (g : Grove) : Operation → Grove
  | .entry k parent callee =>
    if parent.all (· < (g.tree k).size) then
      let (id, tree) := (g.tree k).entry parent callee
      { g with tree := update g.tree k tree, given := update g.given k (id :: g.given k) }
    else g
  | .write k id s => { g with tree := update g.tree k ((g.tree k).modifyStatistics id fun _ => s) }
  | .merge k other => { g with tree := update g.tree k ((g.tree k).merge (g.tree other)) }
  | .clear k => { g with tree := update g.tree k .empty, given := update g.given k [] }
  | .update k i events =>
    let (stack, tree) := (g.stack i).update (g.tree k) events
    { g with tree := update g.tree k tree, stack := update g.stack i stack }

def run (g : Grove) (ops : List Operation) : Grove := ops.foldl step g

/-- All trees are regular, and the numbers that were given belong to nodes. -/
structure Regular (g : Grove) : Prop where
  tree : ∀ k, (g.tree k).Regular
  given : ∀ k, ∀ id ∈ g.given k, id < (g.tree k).size

/-- The trees of a group have folded paths only. -/
def FoldedIn (group : Nat → Prop) (g : Grove) : Prop :=
  ∀ k, group k → ∀ path id, (g.tree k).Leads path (some id) → Folded path

/-- Where nodes may be made in a tree: at folded paths, if it is one of a group. -/
def Allowed (group : Nat → Prop) (k : Nat) (path : List UInt64) : Prop := group k → Folded path

/-! ## One operation -/

section Step

variable {g : Grove} {group : Nat → Prop}

theorem regular_start
    (overheads : Nat → Overhead) :
    (start overheads).Regular :=
  ⟨fun _ => CallTree.regular_empty, fun _ _ h => nomatch h⟩

theorem not_leads_empty
    {path : List UInt64} {id : Nat} :
    ¬ CallTree.empty.Leads path (some id) :=
  fun hleads => Nat.not_lt_zero id (CallTree.WellFormed.empty.isPosition hleads id rfl)

theorem foldedIn_start
    (overheads : Nat → Overhead) :
    (start overheads).FoldedIn group :=
  fun _ _ _ _ hleads => absurd hleads not_leads_empty

/-- A path leads wherever a node can be looked for. -/
theorem exists_leads
    {t : CallTree}
    (ht : t.Regular)
    {parent : Option Nat}
    (hparent : parent.all (· < t.size)) :
    ∃ path, t.Leads path parent := by
  cases parent with
  | none => exact ⟨[], .root⟩
  | some p => exact ht.wellFormed.exists_path (of_decide_eq_true hparent)

/-- If one tree grows, all do. -/
theorem grows_update_tree
    {trees : Nat → CallTree} {k : Nat} {t : CallTree}
    (h : Grows (Allowed group k) (trees k) t)
    (other : Nat) :
    Grows (Allowed group other) (trees other) (update trees k t other) := by
  by_cases hother : other = k
  · subst hother
    rw [Function.update_self]
    exact h
  · rw [Function.update_of_ne hother]

/-- **An operation** lets every tree grow that it does not clear, at folded paths in a group that it
keeps within. -/
theorem grows_step
    (hg : g.Regular)
    (hfolded : g.FoldedIn group)
    {op : Operation}
    (hwithin : op.Within group)
    {k : Nat}
    (hclear : op ≠ .clear k) :
    Grows (Allowed group k) (g.tree k) ((g.step op).tree k) := by
  cases op with
  | entry k' parent callee =>
      rw [step]
      split
      next hparent =>
        obtain ⟨path, hpath⟩ := exists_leads (hg.tree k') hparent
        refine grows_update_tree (.single ?_) k
        exact .entry hpath fun hgroup => absurd hgroup hwithin
      next => exact .refl
  | write k' id s =>
      exact grows_update_tree (.single (.statistics _ _)) k
  | merge k' other =>
      refine grows_update_tree ?_ k
      exact CallTree.grows_merge (hg.tree k') (hg.tree other)
        fun path id hleads hgroup => hfolded other (hwithin hgroup) path id hleads
  | clear k' =>
      have hne : k ≠ k' := by
        rintro rfl
        exact hclear rfl
      simp only [step, Function.update_of_ne hne]
      exact .refl
  | update k' i events =>
      refine grows_update_tree ?_ k
      exact (grows_update (hg.tree k') _ _).mono fun path hpath _ => hpath

theorem grows_step_of_ne
    (hg : g.Regular)
    {op : Operation} {k : Nat}
    (hclear : op ≠ .clear k) :
    Grows (fun _ => True) (g.tree k) ((g.step op).tree k) := by
  have hwithin : op.Within fun _ => False := by
    cases op <;> simp [Operation.Within]
  have hfolded : g.FoldedIn fun _ => False := fun _ h => h.elim
  exact (grows_step hg hfolded hwithin hclear).mono fun _ _ => trivial

theorem tree_step_clear
    (k : Nat) :
    (g.step (.clear k)).tree k = .empty :=
  Function.update_self ..

theorem tree_step_entry
    {k : Nat} {parent : Option Nat}
    (hparent : parent.all (· < (g.tree k).size))
    (callee : UInt64) :
    (g.step (.entry k parent callee)).tree k = ((g.tree k).entry parent callee).2 := by
  rw [step, if_pos hparent]
  exact Function.update_self ..

/-- A number was given before, or it is that of the node that was looked for. -/
theorem given_step
    {op : Operation} {k id : Nat}
    (hid : id ∈ (g.step op).given k) :
    op ≠ .clear k ∧ (id ∈ g.given k ∨ ∃ parent callee, op = .entry k parent callee ∧
      parent.all (· < (g.tree k).size) ∧ id = ((g.tree k).entry parent callee).1) := by
  cases op with
  | entry k' parent callee =>
      refine ⟨nofun, ?_⟩
      rw [step] at hid
      split at hid
      next hparent =>
        by_cases hk : k = k'
        · subst hk
          simp only [Function.update_self] at hid
          rcases List.mem_cons.1 hid with hnew | hold
          · exact .inr ⟨parent, callee, rfl, hparent, hnew⟩
          · exact .inl hold
        · simp only [Function.update_of_ne hk] at hid
          exact .inl hid
      next => exact .inl hid
  | clear k' =>
      rw [step] at hid
      by_cases hk : k = k'
      · subst hk
        simp only [Function.update_self, List.not_mem_nil] at hid
      · simp only [Function.update_of_ne hk] at hid
        refine ⟨?_, .inl hid⟩
        rintro ⟨⟩
        exact hk rfl
  | write => exact ⟨nofun, .inl hid⟩
  | merge => exact ⟨nofun, .inl hid⟩
  | update => exact ⟨nofun, .inl hid⟩

theorem Regular.step
    (hg : g.Regular)
    (op : Operation) :
    (g.step op).Regular where
  tree := by
    intro k
    by_cases hclear : op = .clear k
    · rw [hclear, tree_step_clear]
      exact CallTree.regular_empty
    · exact (grows_step_of_ne hg hclear).regular (hg.tree k)
  given := by
    intro k id hid
    obtain ⟨hclear, hold | ⟨parent, callee, rfl, hparent, rfl⟩⟩ := given_step hid
    · exact (grows_step_of_ne hg hclear).lt_size (hg.tree k) (hg.given k id hold)
    · obtain ⟨path, hpath⟩ := exists_leads (hg.tree k) hparent
      have hwf := (hg.tree k).wellFormed
      rw [tree_step_entry hparent]
      exact (hwf.entry (hwf.isPosition hpath)).isPosition (CallTree.leads_entry hwf hpath) _ rfl

theorem FoldedIn.step
    (hg : g.Regular)
    (hfolded : g.FoldedIn group)
    {op : Operation}
    (hwithin : op.Within group) :
    (g.step op).FoldedIn group := by
  intro k hk path id hleads
  by_cases hclear : op = .clear k
  · rw [hclear, tree_step_clear] at hleads
    exact absurd hleads not_leads_empty
  · rcases (grows_step hg hfolded hwithin hclear).new_path (hg.tree k) hleads with hold | hnew
    · exact hfolded k hk path id hold
    · exact hnew hk

end Step

/-! ## Any number of operations -/

section Run

variable {g : Grove} {group : Nat → Prop}

theorem Regular.run
    (hg : g.Regular)
    (ops : List Operation) :
    (g.run ops).Regular := by
  induction ops generalizing g with
  | nil => exact hg
  | cons op rest ih => exact ih (hg.step op)

theorem FoldedIn.run
    (hg : g.Regular)
    (hfolded : g.FoldedIn group)
    {ops : List Operation}
    (hwithin : ∀ op ∈ ops, op.Within group) :
    (g.run ops).FoldedIn group := by
  induction ops generalizing g with
  | nil => exact hfolded
  | cons op rest ih =>
      obtain ⟨hfirst, hrest⟩ := List.forall_mem_cons.1 hwithin
      exact ih (hg.step op) (hfolded.step hg hfirst) hrest

/-- A tree grows until it is cleared. -/
theorem grows_run
    (hg : g.Regular)
    {ops : List Operation} {k : Nat}
    (hclear : .clear k ∉ ops) :
    Grows (fun _ => True) (g.tree k) ((g.run ops).tree k) := by
  induction ops generalizing g with
  | nil => exact .refl
  | cons op rest ih =>
      rw [List.mem_cons, not_or] at hclear
      exact (grows_step_of_ne hg (Ne.symm hclear.1)).trans (ih (hg.step op) hclear.2)

end Run

/-! ## What holds of trees in use -/

/-- **After any operations** every tree is consistent, and the numbers given since it was cleared belong
to nodes.  Whatever is done later short of clearing it, every number keeps its route and its function.
If nothing but stacks made nodes in a group of trees, no path there has three equal functions in a row. -/
theorem consistent_run
    (overheads : Nat → Overhead) (ops : List Operation) (k : Nat) :
    let g := (start overheads).run ops
    (g.tree k).Consistent ∧
      (∀ id ∈ g.given k, id < (g.tree k).size) ∧
      (∀ later, .clear k ∉ later → ∀ route id, (g.tree k).Route route (some id) →
        ((g.run later).tree k).Route route (some id) ∧
          (((g.run later).tree k).node? id).map (·.callee) = ((g.tree k).node? id).map (·.callee)) ∧
      (∀ group : Nat → Prop, (∀ op ∈ ops, op.Within group) → group k →
        ∀ route id, (g.tree k).Route route (some id) → Folded (CallTree.pathOf route)) := by
  intro g
  have hg : g.Regular := (regular_start overheads).run ops
  refine ⟨(hg.tree k).consistent, hg.given k, ?_, ?_⟩
  · intro later hclear route id hroute
    have hgrows := grows_run hg hclear
    have hlater := hroute.grows hgrows (hg.tree k)
    refine ⟨hlater, ?_⟩
    rw [hroute.callee_eq (hg.tree k), hlater.callee_eq ((hg.run later).tree k)]
  · intro group hwithin hk route id hroute
    have hfolded := (foldedIn_start overheads).run (regular_start overheads) hwithin
    exact hfolded k hk _ id (hroute.leads (hg.tree k))

/-- **A merge** of any two trees, after any operations, ends, adds at every path the statistics there, and
adds the totals function by function.  Merging trees into an empty one gives the same statistics at
every path, in whatever order they are taken. -/
theorem merge_run
    (overheads : Nat → Overhead) (ops : List Operation) (i j : Nat) :
    let g := (start overheads).run ops
    (CallTree.Walk.step (g.tree j))^[(g.tree j).size] (.start (g.tree i) (g.tree j)) =
        ⟨[], (g.tree i).merge (g.tree j)⟩ ∧
      (∀ path, ((g.tree i).merge (g.tree j)).statisticsAt path =
        ((g.tree j).statisticsAt path).elim ((g.tree i).statisticsAt path)
          fun s => some ((((g.tree i).statisticsAt path).getD .zero).merge s)) ∧
      (∀ callee, ((g.tree i).merge (g.tree j)).totals.lookup callee =
        Option.merge Statistics.merge ((g.tree i).totals.lookup callee)
          ((g.tree j).totals.lookup callee)) ∧
      (∀ order order' : List Nat, order.Perm order' → ∀ path,
        ((order.map g.tree).foldl CallTree.merge .empty).statisticsAt path =
          ((order'.map g.tree).foldl CallTree.merge .empty).statisticsAt path) := by
  intro g
  have hg : g.Regular := (regular_start overheads).run ops
  refine ⟨CallTree.Walk.finishes (hg.tree j) _, CallTree.statisticsAt_merge (hg.tree i) (hg.tree j),
    CallTree.lookup_totals_merge (hg.tree i) (hg.tree j), ?_⟩
  intro order order' hperm path
  refine CallTree.statisticsAt_foldl_merge_perm (hperm.map g.tree) ?_ CallTree.regular_empty path
  intro u hu
  obtain ⟨k, -, rfl⟩ := List.mem_map.1 hu
  exact hg.tree k

end Grove

end CallProfiler.Profile
