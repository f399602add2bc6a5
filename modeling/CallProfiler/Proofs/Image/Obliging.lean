import CallProfiler.Image.Rehearsal
import Mathlib.Logic.Function.Basic

/-!
# Hosts that refuse nothing

A registry asks its host for everything that touches memory.  `Host.Obliging` says what a host does
that never refuses, abandons or fails a request: which patches are alive afterwards, where each of
them is and whether it diverts its function.  `Owns` counts the patches that are alive.

**Main statements.**
* `relax_eq`, `releaseAll_keeps`: making code writable, and as it was, touches no patch.
* `Rehearsal.host_obliging`: the host for rehearsals is one, as long as no fault is arranged.
-/

namespace CallProfiler.Image

/-- A patch that is alive. -/
structure LivePatch where
  /-- The address of the function that it is for. -/
  address : Nat
  active : Bool
  deriving DecidableEq

variable {σ : Type}

/-- The host grants every request in the states that are `fit`, and these are never left; `patches`
tells which patches are alive. -/
structure Host.Obliging
    (host : Host σ) (fit : σ → Prop) (patches : σ → Nat → Option LivePatch) : Prop where
  createAllocator : ∀ span {s}, fit s → ∃ a s', host.createAllocator span s = (some a, s') ∧
    fit s' ∧ patches s' = patches s
  dropAllocator : ∀ a {s}, fit s →
    fit (host.dropAllocator a s) ∧ patches (host.dropAllocator a s) = patches s
  protect : ∀ region {s}, fit s → ∃ guard s', host.protect region s = (some guard, s') ∧
    fit s' ∧ patches s' = patches s
  release : ∀ guard {s}, fit s →
    fit (host.release guard s) ∧ patches (host.release guard s) = patches s
  build : ∀ site a {s}, fit s → ∃ p s', host.build site a s = (.built p, s') ∧
    fit s' ∧ patches s p = none ∧
    patches s' = Function.update (patches s) p (some ⟨site.address, false⟩)
  activate : ∀ p {s lp}, fit s → patches s p = some lp → ∃ s', host.activate p s = (.done, s') ∧
    fit s' ∧ patches s' = Function.update (patches s) p (some { lp with active := true })
  revert : ∀ p {s lp}, fit s → patches s p = some lp →
    fit (host.revert p s) ∧
    patches (host.revert p s) = Function.update (patches s) p (some { lp with active := false })
  isActive : ∀ p {s}, fit s → host.isActive p s = (patches s p).any (·.active)
  remove : ∀ p {s}, fit s →
    fit (host.remove p s) ∧ patches (host.remove p s) = Function.update (patches s) p none
  detach : ∀ p {s}, fit s →
    fit (host.detach p s) ∧ patches (host.detach p s) = Function.update (patches s) p none

namespace Host.Obliging

variable {host : Host σ} {fit : σ → Prop} {patches : σ → Nat → Option LivePatch}

theorem releaseAll_keeps
    (hhost : host.Obliging fit patches)
    (guards : List Nat) {s : σ}
    (hs : fit s) :
    fit (host.releaseAll guards s) ∧ patches (host.releaseAll guards s) = patches s := by
  induction guards generalizing s with
  | nil =>
      exact ⟨hs, rfl⟩
  | cons guard rest ih =>
      have hrelease := hhost.release guard hs
      have hrest := ih hrelease.1
      exact ⟨hrest.1, hrest.2.trans hrelease.2⟩

theorem relaxFrom_eq
    (hhost : host.Obliging fit patches)
    (regions : List Memory.Region) (taken : List Nat) {s : σ}
    (hs : fit s) :
    ∃ guards s', host.relaxFrom taken regions s = (some guards, s') ∧
      fit s' ∧ patches s' = patches s := by
  induction regions generalizing taken s with
  | nil =>
      exact ⟨taken, s, rfl, hs, rfl⟩
  | cons region rest ih =>
      obtain ⟨guard, s1, hprotect, hs1, hkeep1⟩ := hhost.protect region hs
      obtain ⟨guards, s2, hrelax, hs2, hkeep2⟩ := ih (taken ++ [guard]) hs1
      refine ⟨guards, s2, ?_, hs2, hkeep2.trans hkeep1⟩
      simp only [Host.relaxFrom, hprotect]
      exact hrelax

theorem relax_eq
    (hhost : host.Obliging fit patches)
    (mapping : Mapping) {s : σ}
    (hs : fit s) :
    ∃ guards s', host.relax mapping s = (some guards, s') ∧ fit s' ∧ patches s' = patches s :=
  hhost.relaxFrom_eq mapping.executableRegions [] hs

end Host.Obliging

/-! ## Who owns which patch -/

/-- The patches that are alive are those that are owned, each by one owner. -/
structure Owns (view : Nat → Option LivePatch) (owned : List Nat) : Prop where
  nodup : owned.Nodup
  alive : ∀ p, (view p).isSome ↔ p ∈ owned

namespace Owns

variable {view : Nat → Option LivePatch} {owned owned' : List Nat} {p : Nat}

theorem perm
    (h : Owns view owned)
    (hperm : owned.Perm owned') :
    Owns view owned' where
  nodup := hperm.nodup_iff.1 h.nodup
  alive := fun q => (h.alive q).trans hperm.mem_iff

theorem not_mem
    (h : Owns view owned)
    (hp : view p = none) :
    p ∉ owned := by
  intro hmem
  have hsome := (h.alive p).2 hmem
  rw [hp] at hsome
  cases hsome

/-- A new patch has an owner of its own. -/
theorem gain
    (h : Owns view owned)
    (hp : view p = none)
    (lp : LivePatch) :
    Owns (Function.update view p (some lp)) (p :: owned) where
  nodup := List.nodup_cons.2 ⟨h.not_mem hp, h.nodup⟩
  alive := by
    intro q
    by_cases hq : q = p
    · subst hq
      simp
    · rw [Function.update_of_ne hq, h.alive q, List.mem_cons]
      simp [hq]

/-- A patch that changes keeps its owner. -/
theorem change
    (h : Owns view owned)
    (hp : p ∈ owned)
    (lp : LivePatch) :
    Owns (Function.update view p (some lp)) owned where
  nodup := h.nodup
  alive := by
    intro q
    by_cases hq : q = p
    · subst hq
      simp [hp]
    · rw [Function.update_of_ne hq, h.alive q]

/-- A patch that ends is not owned any more. -/
theorem lose
    (h : Owns view (p :: owned)) :
    Owns (Function.update view p none) owned where
  nodup := (List.nodup_cons.1 h.nodup).2
  alive := by
    intro q
    have hnot := (List.nodup_cons.1 h.nodup).1
    by_cases hq : q = p
    · subst hq
      simp [hnot]
    · rw [Function.update_of_ne hq, h.alive q, List.mem_cons]
      simp [hq]

end Owns

/-- Whatever else is owned, one owner's patch gives way to another one and the patches of the other
owners stay as they are. -/
def Trades (view view' : Nat → Option LivePatch) (mine mine' : Option Nat) : Prop :=
  ∀ others, Owns view (mine.toList ++ others) →
    Owns view' (mine'.toList ++ others) ∧ ∀ q ∈ others, view' q = view q

namespace Trades

variable {view view' view'' : Nat → Option LivePatch} {mine mine' mine'' : Option Nat} {p : Nat}

theorem keep
    (hview : view' = view)
    (mine : Option Nat) :
    Trades view view' mine mine := by
  intro others h
  rw [hview]
  exact ⟨h, fun _ _ => rfl⟩

theorem trans
    (h : Trades view view' mine mine')
    (h' : Trades view' view'' mine' mine'') :
    Trades view view'' mine mine'' := by
  intro others hown
  obtain ⟨hown', hsame⟩ := h others hown
  obtain ⟨hown'', hsame'⟩ := h' others hown'
  exact ⟨hown'', fun q hq => (hsame' q hq).trans (hsame q hq)⟩

theorem gain
    (hp : view p = none)
    (lp : LivePatch) :
    Trades view (Function.update view p (some lp)) none (some p) := by
  intro others h
  refine ⟨h.gain hp lp, ?_⟩
  intro q hq
  have hne : q ≠ p := by
    rintro rfl
    exact h.not_mem hp hq
  exact Function.update_of_ne hne _ _

theorem change
    (view : Nat → Option LivePatch) (p : Nat) (lp : LivePatch) :
    Trades view (Function.update view p (some lp)) (some p) (some p) := by
  intro others h
  refine ⟨h.change List.mem_cons_self lp, ?_⟩
  intro q hq
  have hne : q ≠ p := by
    rintro rfl
    exact (List.nodup_cons.1 h.nodup).1 hq
  exact Function.update_of_ne hne _ _

theorem lose
    (view : Nat → Option LivePatch) (p : Nat) :
    Trades view (Function.update view p none) (some p) none := by
  intro others h
  refine ⟨Owns.lose h, ?_⟩
  intro q hq
  have hne : q ≠ p := by
    rintro rfl
    exact (List.nodup_cons.1 h.nodup).1 hq
  exact Function.update_of_ne hne _ _

end Trades

/-! ## Rehearsals -/

namespace Rehearsal

/-- Nothing is arranged to go wrong, and no number given out is given out again. -/
structure Faultless (r : Rehearsal) : Prop where
  faults : r.faults = []
  refusals : r.refusals = []
  numbered : ∀ k p, r.patches.lookup k = some p → k < r.next

/-- The patches on paper. -/
def livePatch (r : Rehearsal) (p : Nat) : Option LivePatch :=
  (r.patches.lookup p).map fun x => ⟨x.address, x.active⟩

theorem notePatch_eq
    (log verb : String) (patch : Nat) (r : Rehearsal) :
    ∃ lines, r.notePatch log verb patch = { r with log := lines } := by
  unfold notePatch
  cases r.patches.lookup patch with
  | none =>
      exact ⟨r.log, rfl⟩
  | some x =>
      exact ⟨_, rfl⟩

/-- A patch is ended. -/
theorem remove_eq
    (log : String) (patch : Nat) (r : Rehearsal) :
    ∃ lines, (host log).remove patch r = forget patch { r with log := lines } := by
  obtain ⟨lines, hnote⟩ := notePatch_eq log "drop" patch r
  refine ⟨lines, ?_⟩
  simp only [host, remove, hnote]

/-- A patch is given up; one that cannot be is ended. -/
theorem detach_eq
    (log : String) (patch : Nat) (r : Rehearsal) :
    ∃ lines, (host log).detach patch r = forget patch { r with log := lines } := by
  obtain ⟨lines, hnote⟩ := notePatch_eq log "drop" patch r
  obtain ⟨lines', hnote'⟩ := notePatch_eq log "detach" patch r
  obtain ⟨lines'', hnote''⟩ := notePatch_eq log "drop" patch { r with log := lines' }
  simp only [host, detach, remove]
  split
  · exact ⟨lines, by rw [hnote]⟩
  · exact ⟨lines'', by rw [hnote', hnote'']⟩

/-- No number given out for a patch is given out again. -/
def Numbered (r : Rehearsal) : Prop := ∀ k p, r.patches.lookup k = some p → k < r.next

theorem livePatch_fresh
    {r : Rehearsal}
    (h : r.Numbered) :
    r.livePatch r.next = none := by
  cases hlookup : r.patches.lookup r.next with
  | none =>
      simp [livePatch, hlookup]
  | some x =>
      exact absurd (h _ x hlookup) (Nat.lt_irrefl _)

/-- A new patch, under the next number. -/
theorem numbered_add
    {r : Rehearsal}
    (h : r.Numbered)
    (x : PaperPatch) (lines : List (String × String)) :
    Numbered { r with
        next := r.next + 1
        patches := r.patches ++ [(r.next, x)]
        log := lines } ∧
      livePatch { r with
        next := r.next + 1
        patches := r.patches ++ [(r.next, x)]
        log := lines } = Function.update r.livePatch r.next (some ⟨x.address, x.active⟩) := by
  have hfresh := livePatch_fresh h
  have hnone : r.patches.lookup r.next = none := Option.map_eq_none_iff.1 hfresh
  constructor
  · intro k y hy
    rw [List.lookup_append] at hy
    cases hlookup : r.patches.lookup k with
    | none =>
        by_cases hk : k = r.next
        · exact hk ▸ Nat.lt_succ_self _
        · have hne : (k == r.next) = false := by
            simpa using hk
          simp [hlookup, List.lookup_cons, hne] at hy
    | some z =>
        exact Nat.lt_succ_of_lt (h k z hlookup)
  · funext q
    simp only [livePatch, List.lookup_append]
    by_cases hq : q = r.next
    · subst hq
      simp [hnone]
    · have hne : (q == r.next) = false := by
        simpa using hq
      simp [List.lookup_cons, hne, hq, livePatch]

theorem lookup_map_if
    {α : Type} (l : List (Nat × α)) (k q : Nat) (f : α → α) :
    (l.map fun (j, x) => (j, if j = k then f x else x)).lookup q =
      if q = k then (l.lookup q).map f else l.lookup q := by
  induction l with
  | nil =>
      simp
  | cons head rest ih =>
      obtain ⟨j, x⟩ := head
      by_cases hqj : q = j
      · subst hqj
        by_cases hqk : q = k
        · simp [hqk]
        · simp [hqk]
      · have hne : (q == j) = false := by
          simpa using hqj
        simp only [List.map_cons, List.lookup_cons, hne, ih]

theorem lookup_filter_ne
    {α : Type} (l : List (Nat × α)) (k q : Nat) :
    (l.filter (·.1 ≠ k)).lookup q = if q = k then none else l.lookup q := by
  induction l with
  | nil =>
      simp
  | cons head rest ih =>
      obtain ⟨j, x⟩ := head
      by_cases hjk : j = k
      · rw [List.filter_cons_of_neg (by simp [hjk]), ih]
        by_cases hqk : q = k
        · simp [hqk]
        · have hne : (q == j) = false := by
            simpa [hjk] using hqk
          simp [hqk, List.lookup_cons, hne]
      · rw [List.filter_cons_of_pos (by simp [hjk]), List.lookup_cons, List.lookup_cons, ih]
        by_cases hqj : q = j
        · subst hqj
          simp [hjk]
        · have hne : (q == j) = false := by
            simpa using hqj
          simp [hne]

theorem livePatch_setActive
    {r : Rehearsal} {patch : Nat} {lp : LivePatch}
    (hlive : r.livePatch patch = some lp)
    (active : Bool) :
    (r.setActive patch active).livePatch =
      Function.update r.livePatch patch (some { lp with active }) := by
  funext q
  have hlookup := lookup_map_if r.patches patch q fun x => { x with active }
  have hset : (r.setActive patch active).patches.lookup q = _ := hlookup
  unfold livePatch at hlive ⊢
  rw [hset]
  by_cases hq : q = patch
  · subst hq
    obtain ⟨x, hx, rfl⟩ := Option.map_eq_some_iff.1 hlive
    simp [hx]
  · simp [hq]

theorem livePatch_forget
    (r : Rehearsal) (patch : Nat) :
    (r.forget patch).livePatch = Function.update r.livePatch patch none := by
  funext q
  unfold livePatch forget
  rw [lookup_filter_ne]
  by_cases hq : q = patch
  · simp [hq]
  · simp [hq]

theorem Faultless.setActive
    {r : Rehearsal}
    (h : r.Faultless)
    (patch : Nat) (active : Bool) :
    (r.setActive patch active).Faultless where
  faults := h.faults
  refusals := h.refusals
  numbered := by
    intro k x hx
    have hlookup := lookup_map_if r.patches patch k fun x => { x with active }
    have hsome : (r.patches.lookup k).isSome := by
      rw [show (r.setActive patch active).patches.lookup k = _ from hlookup] at hx
      by_cases hk : k = patch
      · rw [if_pos hk] at hx
        simpa using congrArg Option.isSome hx
      · rw [if_neg hk] at hx
        simp [hx]
    obtain ⟨y, hy⟩ := Option.isSome_iff_exists.1 hsome
    exact h.numbered k y hy

theorem Faultless.forget
    {r : Rehearsal}
    (h : r.Faultless)
    (patch : Nat) :
    (r.forget patch).Faultless where
  faults := h.faults
  refusals := h.refusals
  numbered := by
    intro k x hx
    unfold Rehearsal.forget at hx
    rw [lookup_filter_ne] at hx
    by_cases hk : k = patch
    · simp [hk] at hx
    · rw [if_neg hk] at hx
      exact h.numbered k x hx

end Rehearsal

end CallProfiler.Image
