import CallProfiler.Profile.Hotspot
import CallProfiler.Proofs.CallTree.Grove
import CallProfiler.Proofs.Lookup

/-!
# The ranking of functions

The totals of a function are the sum over its nodes, in whatever order these are added.  A ranking lists
the functions with a completed call; as no two of them have the same address, their order is strict, and
the list is determined by what it holds.

**Main statements.**
* `Totals.lookup_collect_empty`: what is collected under a function is the sum of what was under it.
* `Hotspot.pairwise_ranked`, `Hotspot.mem_ranked`: the order of a ranking and what it holds.
* `CallTree.perm_summaries_of_statisticsAt_eq`: trees that are equal path by path have the same nodes.
* `Hotspot.functions_are_ranked`: the hotspots of a tree, of permuted nodes, and of equal trees.
-/

namespace CallProfiler.Profile

/-! ## Totals as sums -/

namespace Statistics

/-- The sum of statistics, added one after the other to none. -/
def sum (l : List Statistics) : Statistics := l.foldl merge zero

@[simp] theorem sum_append_singleton
    (l : List Statistics) (s : Statistics) :
    sum (l ++ [s]) = (sum l).merge s :=
  List.foldl_concat ..

theorem timesCalled_sum
    (l : List Statistics) :
    (sum l).timesCalled = (l.map (·.timesCalled)).sum % 2 ^ 64 := by
  induction l using List.reverseRecOn with
  | nil => rfl
  | append_singleton l s ih =>
      rw [sum_append_singleton, merge, ih, List.map_append, List.sum_append, List.map_singleton,
        List.sum_singleton, Nat.mod_add_mod]

end Statistics

namespace Totals

theorem Ascending.nodup
    {totals : Totals}
    (h : totals.Ascending) :
    (totals.map (·.1)).Nodup :=
  List.pairwise_map.2 (h.imp UInt64.ne_of_lt)

/-- The statistics that stand under a function in a row. -/
def under (row : List (UInt64 × Statistics)) (callee : UInt64) : List Statistics :=
  (row.filter (·.1 = callee)).map (·.2)

theorem under_append_singleton
    (row : List (UInt64 × Statistics)) (p : UInt64 × Statistics) (callee : UInt64) :
    under (row ++ [p]) callee = under row callee ++ if p.1 = callee then [p.2] else [] := by
  by_cases h : p.1 = callee
  · simp [under, h]
  · simp [under, h]

/-- **The total** of a function is the sum of the statistics under it; without any it has none. -/
theorem lookup_collect_empty
    (row : List (UInt64 × Statistics)) (callee : UInt64) :
    (collect row []).lookup callee =
      if under row callee = [] then none else some (.sum (under row callee)) := by
  induction row using List.reverseRecOn with
  | nil => rfl
  | append_singleton row p ih =>
      have hcollect : collect (row ++ [p]) [] = (collect row []).add p.1 p.2 :=
        List.foldl_concat ..
      rw [hcollect, lookup_add (ascending_collect List.Pairwise.nil row), under_append_singleton]
      by_cases h : callee = p.1
      · subst h
        have hsum : ((collect row []).lookup p.1).getD .zero = .sum (under row p.1) := by
          rw [ih]
          split
          next hnone =>
            rw [hnone]
            rfl
          next => rfl
        simp [hsum]
      · rw [if_neg h, ih, if_neg (Ne.symm h), List.append_nil]

end Totals

/-! ## Rankings -/

namespace Hotspot

variable {totals : Totals} {p q r : UInt64 × Statistics}

theorem ranksBefore_iff :
    ranksBefore p q = true ↔
      q.2.exclusiveTime < p.2.exclusiveTime ∨ p.2.exclusiveTime = q.2.exclusiveTime ∧ p.1 ≤ q.1 := by
  simp [ranksBefore]

theorem ranksBefore_trans
    (h : ranksBefore p q = true)
    (h' : ranksBefore q r = true) :
    ranksBefore p r = true := by
  rw [ranksBefore_iff] at h h' ⊢
  rcases h with h | ⟨h, hle⟩
  · rcases h' with h' | ⟨h', -⟩
    · exact .inl (Int.lt_trans h' h)
    · exact .inl (h' ▸ h)
  · rcases h' with h' | ⟨h', hle'⟩
    · exact .inl (h ▸ h')
    · exact .inr ⟨h.trans h', UInt64.le_trans hle hle'⟩

theorem ranksBefore_total
    (p q : UInt64 × Statistics) :
    (ranksBefore p q || ranksBefore q p) = true := by
  rw [Bool.or_eq_true, ranksBefore_iff, ranksBefore_iff]
  rcases Int.lt_trichotomy p.2.exclusiveTime q.2.exclusiveTime with h | h | h
  · exact .inr (.inl h)
  · rcases UInt64.le_total p.1 q.1 with hle | hle
    · exact .inl (.inr ⟨h, hle⟩)
    · exact .inr (.inr ⟨h.symm, hle⟩)
  · exact .inl (.inl h)

/-- More exclusive time, or as much and a lower address. -/
def Above (p q : UInt64 × Statistics) : Prop :=
  q.2.exclusiveTime < p.2.exclusiveTime ∨ p.2.exclusiveTime = q.2.exclusiveTime ∧ p.1 < q.1

theorem perm_ranked
    (totals : Totals) :
    (ranked totals).Perm (totals.filter fun t => 0 < t.2.timesCalled) :=
  List.mergeSort_perm _ _

/-- What is ranked comes from the totals, with a completed call. -/
theorem mem_ranked :
    p ∈ ranked totals ↔ p ∈ totals ∧ 0 < p.2.timesCalled := by
  rw [(perm_ranked totals).mem_iff, List.mem_filter, decide_eq_true_eq]

theorem nodup_ranked
    (h : totals.Ascending) :
    ((ranked totals).map (·.1)).Nodup := by
  rw [((perm_ranked totals).map (·.1)).nodup_iff]
  exact h.nodup.sublist (List.filter_sublist.map _)

/-- **The order of a ranking** is strict, as addresses differ. -/
theorem pairwise_ranked
    (h : totals.Ascending) :
    (ranked totals).Pairwise Above := by
  have hsorted : (ranked totals).Pairwise (ranksBefore · · = true) :=
    @List.pairwise_mergeSort _ ranksBefore (fun _ _ _ => ranksBefore_trans) ranksBefore_total _
  refine (hsorted.and (List.pairwise_map.1 (nodup_ranked h))).imp ?_
  rintro p q ⟨hbefore, hne⟩
  rcases ranksBefore_iff.1 hbefore with hmore | ⟨hsame, hle⟩
  · exact .inl hmore
  · exact .inr ⟨hsame, UInt64.lt_of_le_of_ne hle hne⟩

end Hotspot

/-! ## Trees -/

namespace CallTree

variable {t u : CallTree}

/-- The statistics of the nodes of a function, whatever path they are reached by. -/
def statisticsUnder (t : CallTree) (callee : UInt64) : List Statistics :=
  (t.nodes.toList.filter (·.callee = callee)).map (·.statistics)

theorem under_summaries
    (t : CallTree) (callee : UInt64) :
    Totals.under t.summaries callee = t.statisticsUnder callee := by
  rw [Totals.under, summaries, List.filter_map, List.map_map]
  rfl

/-- A function that was called has its sum in the totals, and no other has any calls there. -/
theorem mem_totals_and_called
    {callee : UInt64} {s : Statistics} :
    (callee, s) ∈ t.totals ∧ 0 < s.timesCalled ↔
      0 < ((t.statisticsUnder callee).map (·.timesCalled)).sum % 2 ^ 64 ∧
        s = .sum (t.statisticsUnder callee) := by
  have hlookup := Totals.lookup_collect_empty t.summaries callee
  rw [← totals_eq, under_summaries] at hlookup
  rw [← lookup_eq_some_iff_mem ascending_totals.nodup, hlookup, ← Statistics.timesCalled_sum]
  constructor
  · rintro ⟨hsome, hcalled⟩
    split at hsome
    next => cases hsome
    next =>
      cases hsome
      exact ⟨hcalled, rfl⟩
  · rintro ⟨hcalled, rfl⟩
    refine ⟨if_neg ?_, hcalled⟩
    intro hnone
    rw [hnone] at hcalled
    exact absurd hcalled (Nat.lt_irrefl 0)

/-- The branches of trees that are equal path by path hold the same. -/
theorem perm_listing_of_statisticsAt_eq
    (ht : t.Regular)
    (hu : u.Regular)
    (h : ∀ path, t.statisticsAt path = u.statisticsAt path) :
    (CallBranch.listingAll [] t.branches).Perm (CallBranch.listingAll [] u.branches) := by
  have hnodup : ∀ {v : CallTree}, v.Regular → (CallBranch.listingAll [] v.branches).Nodup :=
    fun hv => (nodup_listingAll_below hv.wellFormed hv.sorted none []).of_map _
  rw [List.perm_ext_iff_of_nodup (hnodup ht) (hnodup hu)]
  rintro ⟨path, s⟩
  rw [mem_listing_branches ht.wellFormed ht.sorted, mem_listing_branches hu.wellFormed hu.sorted, h]

/-- **Trees that are equal path by path** have the same nodes, whatever their numbers. -/
theorem perm_summaries_of_statisticsAt_eq
    (ht : t.Regular)
    (hu : u.Regular)
    (h : ∀ path, t.statisticsAt path = u.statisticsAt path) :
    t.summaries.Perm u.summaries :=
  (perm_summaries ht).symm.trans
    (((perm_listing_of_statisticsAt_eq ht hu h).map summary).trans (perm_summaries hu))

end CallTree

namespace Hotspot

/-- What a ranking says of its functions. -/
theorem map_ofTree
    (t : CallTree) :
    (ofTree t).map (fun h => (h.address, h.statistics)) = ranked t.totals := by
  simp [ofTree, Function.comp_def]

/-- The hotspots depend on the nodes and not on their numbers. -/
theorem ofTree_eq_of_perm
    {t u : CallTree}
    (h : t.summaries.Perm u.summaries) :
    ofTree t = ofTree u := by
  have htotals : t.totals = u.totals := by
    rw [CallTree.totals_eq, CallTree.totals_eq, Totals.collect_perm h]
  rw [ofTree, ofTree, htotals]

/-- **Functions are ranked.**  The hotspots of any tree are the functions whose nodes have a completed
call between them, each once and with the sum of their statistics, in strict order: more exclusive time
first, then the lower address.  They depend on which functions the nodes belong to and on their
statistics alone, so that trees that were made by any operations and are equal path by path have the same
hotspots.  Sums are taken in their bounds: calls that are fewer than `2 ^ 64` are all counted. -/
theorem functions_are_ranked :
    (∀ t : CallTree,
      (∀ callee s, (∃ h ∈ ofTree t, h.address = callee ∧ h.statistics = s) ↔
        0 < ((t.statisticsUnder callee).map (·.timesCalled)).sum % 2 ^ 64 ∧
          s = .sum (t.statisticsUnder callee)) ∧
      ((ofTree t).map (·.address)).Nodup ∧
      (ofTree t).Pairwise fun h k => Above (h.address, h.statistics) (k.address, k.statistics)) ∧
    (∀ t u : CallTree,
      (t.nodes.toList.map fun n => (n.callee, n.statistics)).Perm
        (u.nodes.toList.map fun n => (n.callee, n.statistics)) →
      ofTree t = ofTree u) ∧
    (∀ overheads ops i j,
      let g := (Grove.start overheads).run ops
      (∀ path, (g.tree i).statisticsAt path = (g.tree j).statisticsAt path) →
      ofTree (g.tree i) = ofTree (g.tree j)) := by
  refine ⟨fun t => ⟨fun callee s => ?_, ?_, ?_⟩, fun t u h => ofTree_eq_of_perm h, ?_⟩
  · have hmem : (∃ h ∈ ofTree t, h.address = callee ∧ h.statistics = s) ↔
        (callee, s) ∈ ranked t.totals := by
      simp only [← map_ofTree, List.mem_map, Prod.mk.injEq]
    rw [hmem, mem_ranked, CallTree.mem_totals_and_called]
  · have hnodup := nodup_ranked (CallTree.ascending_totals (t := t))
    rwa [← map_ofTree, List.map_map] at hnodup
  · have hpairwise := pairwise_ranked (CallTree.ascending_totals (t := t))
    rwa [← map_ofTree, List.pairwise_map] at hpairwise
  · intro overheads ops i j g hequal
    have hg : g.Regular := (Grove.regular_start overheads).run ops
    exact ofTree_eq_of_perm
      (CallTree.perm_summaries_of_statisticsAt_eq (hg.tree i) (hg.tree j) hequal)

end Hotspot

end CallProfiler.Profile
