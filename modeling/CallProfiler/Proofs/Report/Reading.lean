import CallProfiler.Proofs.Lookup
import CallProfiler.Proofs.Replay.Reordering
import CallProfiler.Proofs.Replay.Placement
import CallProfiler.Proofs.Report.Entries

/-!
# What a report tells

The report on an analysis tells its overhead and the call trees of all its threads.  Reading the text
gives them back: every node of a tree stands in one entry, below that of its caller, and no entry
stands for anything else.

**Main statements.**
* `forall_threads_run`: what holds of new profiles and is kept by batches and by clearing.
* `shows_ofBranches`: the entries of a tree show its nodes.
* `report_recovers_trees`: what is read from the report on any analysis.
-/

namespace CallProfiler

namespace Profile

/-! ## Trees of analyses -/

/-- Replaying keeps callees in ascending order. -/
theorem kept_sorted :
    Kept fun t frames => (t.WellFormed ∧ Placed t frames) ∧ t.Sorted where
  push := by
    rintro t frames ⟨⟨hwf, hplaced⟩, hsorted⟩ f
    refine ⟨kept_placed.push ⟨hwf, hplaced⟩ f, ?_⟩
    have hposition := hwf.isPosition hplaced.leads_head
    by_cases hrun : (frames.map (·.callee)).take 2 = [f.callee, f.callee]
    · obtain ⟨node, -, hchild⟩ := childNode_of_run hrun
      rw [hchild]
      exact hsorted
    · rw [childNode_of_not_run hrun]
      exact hsorted.entry hposition
  ends := by
    rintro t f outer ⟨hplaced, hsorted⟩ level inclusive exclusive
    exact ⟨kept_placed.ends hplaced level inclusive exclusive, hsorted.modifyStatistics _ _⟩
  charge := fun h o observed callee => ⟨kept_placed.charge h.1 o observed callee, h.2⟩

namespace Analysis

theorem forall_updateThread
    {I : ThreadProfile → Prop} {fresh : ThreadProfile} {f : ThreadProfile → ThreadProfile}
    {l : List (UInt64 × ThreadProfile)}
    (hfresh : I fresh)
    (hf : ∀ p, I p → I (f p))
    (h : ∀ q ∈ l, I q.2)
    (thread : UInt64) :
    ∀ q ∈ updateThread fresh thread f l, I q.2 := by
  induction l with
  | nil =>
      rintro q hq
      rw [List.mem_singleton.1 hq]
      exact hf fresh hfresh
  | cons p rest ih =>
      obtain ⟨hp, hrest⟩ := List.forall_mem_cons.1 h
      unfold updateThread
      split
      · exact List.forall_mem_cons.2 ⟨hf fresh hfresh, h⟩
      · split
        · exact List.forall_mem_cons.2 ⟨hf _ hp, hrest⟩
        · exact List.forall_mem_cons.2 ⟨hp, ih hrest⟩

/-- **What holds of new profiles** and is kept by batches and by clearing holds of all threads. -/
theorem forall_threads_run
    {I : ThreadProfile → Prop}
    (hnew : ∀ o, I ⟨.empty o, .empty⟩)
    (hreplay : ∀ p events, I p → I (p.replay events))
    (hclear : ∀ p, I p → I { p with tree := .empty })
    (o : Overhead) (feeds : List Feed) :
    ∀ q ∈ ((empty o).run feeds).threads, I q.2 := by
  have hrun : ∀ a : Analysis, (∀ q ∈ a.threads, I q.2) → ∀ q ∈ (a.run feeds).threads, I q.2 := by
    induction feeds with
    | nil =>
        exact fun a h => h
    | cons feed rest ih =>
        intro a h
        apply ih
        cases feed with
        | batch thread events =>
            exact forall_updateThread (hnew a.overhead) (fun p hp => hreplay p events hp) h thread
        | clear =>
            intro q hq
            obtain ⟨q', hq', rfl⟩ := List.mem_map.1 hq
            exact hclear q'.2 (h q' hq')
  exact hrun (empty o) (by simp [empty])

/-- The trees of all threads are well-formed, with callees in ascending order. -/
theorem trees_run
    (o : Overhead) (feeds : List Feed) :
    ∀ q ∈ ((empty o).run feeds).threads, q.2.tree.WellFormed ∧ q.2.tree.Sorted := by
  apply forall_threads_run (I := fun p => p.tree.WellFormed ∧ p.tree.Sorted)
  · exact fun _ => ⟨.empty, CallTree.sorted_empty⟩
  · intro p events h
    have hkept := kept_sorted.update ⟨⟨h.1, Placed.nil⟩, h.2⟩ p.stack events
    exact ⟨hkept.1.1, hkept.2⟩
  · exact fun _ _ => ⟨.empty, CallTree.sorted_empty⟩

theorem overhead_run
    (a : Analysis) (feeds : List Feed) :
    (a.run feeds).overhead = a.overhead := by
  induction feeds generalizing a with
  | nil =>
      rfl
  | cons feed rest ih =>
      refine (ih _).trans ?_
      cases feed <;> rfl

theorem Ascending.mem_iff_lookup
    {l : List (UInt64 × ThreadProfile)}
    (h : Ascending l)
    {id : UInt64} {p : ThreadProfile} :
    (id, p) ∈ l ↔ l.lookup id = some p :=
  (lookup_eq_some_iff_mem (List.pairwise_map.2 (h.imp UInt64.ne_of_lt))).symm

theorem mem_threads_iff
    {a : Analysis}
    (h : Ascending a.threads)
    {id : UInt64} {t : CallTree} :
    a.tree? id = some t ↔ ∃ p, (id, p) ∈ a.threads ∧ p.tree = t := by
  simp only [tree?, Option.map_eq_some_iff, h.mem_iff_lookup]

end Analysis

end Profile

namespace Report

open Profile Json

/-- The entries show a call tree: following their paths from the roots gives the number of every node
once, an entry holds the address, the name and the statistics of its node, and siblings stand in
ascending order of their addresses. -/
structure Shows (names : Names) (t : CallTree) (entries : List Entry) : Prop where
  nodes : ((Entry.allLines [] entries).map fun l =>
      (t.follow? none l.path, l.path.getLast?, l.name, l.statistics)).Perm
    (t.nodes.toList.zipIdx.map fun n => (some n.2, some n.1.callee, names n.1.callee, n.1.statistics))
  ascending : Entry.Ascending entries

/-- **The entries of a tree** show its nodes. -/
theorem shows_ofBranches
    {t : CallTree}
    (hwf : t.WellFormed)
    (hsorted : t.Sorted)
    (names : Names) :
    Shows names t (Entry.ofBranches names t.branches) where
  nodes := by
    have hperm := (CallTree.perm_listing_branches hwf hsorted).map
      fun l => (l.1, l.2.1, l.2.1.bind names, l.2.2)
    rw [List.map_map, List.map_map] at hperm
    rw [Entry.allLines_ofBranches, List.map_map]
    exact hperm
  ascending := Entry.ascending_ofBranches names (CallTree.ascending_below hwf hsorted none)

/-- Trees with the same entries have the same statistics at every path, whatever names are known. -/
theorem statisticsAt_eq_of_ofBranches_eq
    {t t' : CallTree} {names names' : Names}
    (hwf : t.WellFormed) (hsorted : t.Sorted)
    (hwf' : t'.WellFormed) (hsorted' : t'.Sorted)
    (h : Entry.ofBranches names t.branches = Entry.ofBranches names' t'.branches)
    (path : List UInt64) :
    t.statisticsAt path = t'.statisticsAt path := by
  have hlisting := Entry.map_allLines_ofBranches names t.branches
  rw [h, Entry.map_allLines_ofBranches] at hlisting
  apply Option.ext
  intro s
  rw [← CallTree.mem_listing_branches hwf hsorted, ← CallTree.mem_listing_branches hwf' hsorted',
    hlisting]

/-- Reports that hold the same are on analyses with the same threads and statistics. -/
theorem eq_of_contents_eq
    {o o' : Overhead} {feeds feeds' : List Analysis.Feed} {names names' : Names}
    (h : Contents.of names ((Analysis.empty o).run feeds) =
      Contents.of names' ((Analysis.empty o').run feeds')) :
    let a := (Analysis.empty o).run feeds
    let a' := (Analysis.empty o').run feeds'
    a.overhead = a'.overhead ∧ a.threadIds = a'.threadIds ∧
      ∀ thread path, (a.tree? thread).bind (·.statisticsAt path) =
        (a'.tree? thread).bind (·.statisticsAt path) := by
  intro a a'
  have hascending : Analysis.Ascending a.threads := Analysis.Ascending.run feeds List.Pairwise.nil
  have hascending' : Analysis.Ascending a'.threads := Analysis.Ascending.run feeds' List.Pairwise.nil
  have hthreads : a.threads.map (fun t => (t.1, Entry.ofBranches names t.2.tree.branches)) =
      a'.threads.map fun t => (t.1, Entry.ofBranches names' t.2.tree.branches) :=
    congrArg Contents.threads h
  have hids : a.threadIds = a'.threadIds := by
    have hfirst := congrArg (List.map Prod.fst) hthreads
    rw [List.map_map, List.map_map] at hfirst
    exact hfirst
  refine ⟨congrArg Contents.overhead h, hids, ?_⟩
  intro thread path
  cases htree : a.tree? thread with
  | none =>
      cases htree' : a'.tree? thread with
      | none =>
          rfl
      | some t' =>
          obtain ⟨p', hp', -⟩ := (Analysis.mem_threads_iff hascending').1 htree'
          have hthere : thread ∈ a.threadIds := hids ▸ List.mem_map_of_mem (f := (·.1)) hp'
          obtain ⟨⟨_, p⟩, hp, rfl⟩ := List.mem_map.1 hthere
          rw [(Analysis.mem_threads_iff hascending).2 ⟨p, hp, rfl⟩] at htree
          cases htree
  | some t =>
      obtain ⟨p, hp, rfl⟩ := (Analysis.mem_threads_iff hascending).1 htree
      have hmem := List.mem_map_of_mem
        (f := fun t => (t.1, Entry.ofBranches names t.2.tree.branches)) hp
      rw [hthreads] at hmem
      obtain ⟨⟨_, p'⟩, hp', heq⟩ := List.mem_map.1 hmem
      obtain ⟨rfl, hentries⟩ := Prod.mk.inj heq
      rw [(Analysis.mem_threads_iff hascending').2 ⟨p', hp', rfl⟩]
      obtain ⟨hwf, hsorted⟩ := Analysis.trees_run o feeds _ hp
      obtain ⟨hwf', hsorted'⟩ := Analysis.trees_run o' feeds' _ hp'
      exact statisticsAt_eq_of_ofBranches_eq hwf hsorted hwf' hsorted' hentries.symm path

/-- **A report gives back what was analysed.**  Whatever batches an analysis was given, however often it
was cleared and whatever names are known, the text of the report is one document and a new line.  What
is read from it is the overhead and, thread by thread in ascending order, entries that show the thread's
call tree, besides the ranking of functions.  Hence reports with the same text, under whatever names, are
on analyses with the same overhead, the same threads and the same statistics at every path. -/
theorem report_recovers_trees
    (o : Overhead) (feeds : List Analysis.Feed) (names : Names) :
    let a := (Analysis.empty o).run feeds
    (∃ text value, exportText names a = text ++ ['\n'] ∧ Value.parse text = .ok value) ∧
    (∃ r, Contents.read? (exportText names a) = some r ∧
      r.overhead = o ∧
      r.threads.map (·.1) = a.threadIds ∧ a.threadIds.Pairwise (· < ·) ∧
      (∀ thread entries, (thread, entries) ∈ r.threads →
        ∃ t, a.tree? thread = some t ∧ Shows names t entries) ∧
      r.hotspots = (Hotspot.ofTree a.merged).map (Ranking.of names)) ∧
    ∀ (o' : Overhead) (feeds' : List Analysis.Feed) (names' : Names),
      let a' := (Analysis.empty o').run feeds'
      exportText names a = exportText names' a' →
        o = o' ∧ a.threadIds = a'.threadIds ∧
        ∀ thread path, (a.tree? thread).bind (·.statisticsAt path) =
          (a'.tree? thread).bind (·.statisticsAt path) := by
  intro a
  have hascending : Analysis.Ascending a.threads := Analysis.Ascending.run feeds List.Pairwise.nil
  have hread := Contents.read?_exportText names a
  refine ⟨⟨_, _, rfl, Value.parse_print (document names a) .indented⟩, ?_, ?_⟩
  · refine ⟨_, hread, Analysis.overhead_run _ feeds, ?_, List.pairwise_map.2 hascending, ?_, rfl⟩
    · exact List.map_map
    · intro thread entries hmem
      obtain ⟨⟨_, p⟩, hp, heq⟩ := List.mem_map.1 hmem
      obtain ⟨rfl, rfl⟩ := Prod.mk.inj heq
      obtain ⟨hwf, hsorted⟩ := Analysis.trees_run o feeds _ hp
      exact ⟨p.tree, (Analysis.mem_threads_iff hascending).2 ⟨p, hp, rfl⟩,
        shows_ofBranches hwf hsorted names⟩
  · intro o' feeds' names' a' htext
    have hread' := Contents.read?_exportText names' a'
    rw [htext, hread'] at hread
    obtain ⟨hoverhead, hsame⟩ := eq_of_contents_eq (Option.some.inj hread).symm
    rw [Analysis.overhead_run, Analysis.overhead_run] at hoverhead
    exact ⟨hoverhead, hsame⟩

end Report

end CallProfiler
