import CallProfiler.Image.Fleet
import Mathlib.Data.List.Nodup
import Mathlib.Data.List.Perm.Basic

/-!
# A host under observation

Whatever a host does, one can look on: a watched host does the same and keeps a journal of all calls
in order.  Guards and patches get numbers of the journal's own, which are never given out twice, so the
journal tells which guard is released when, and what becomes of which patch.

A guard says how its region was protected, which is what its release restores.  So a journal also tells
the protection of memory (`protectionAfter`).

**Main statements.**
* `Host.watched`: the host that keeps a journal.
* `Journal.Balanced`: every guard that was taken has been released once, with its own region, unless
  it is still held; kept by `Balanced.protect` and `Balanced.release`.
* `protectionAfter_protected`: how long a guard keeps its region writable.
-/

namespace CallProfiler.Image

/-- A call of a host, with what it gave. -/
inductive Call where
  | createAllocator (span : Memory.Range)
  | dropAllocator (allocator : Nat)
  /-- No guard if the region cannot be made writable. -/
  | protect (region : Memory.Region) (guard : Option Nat)
  /-- The guard of a region is released. -/
  | release (guard : Nat) (region : Memory.Region)
  /-- No patch if building it was refused or abandoned. -/
  | build (site : Site) (patch : Option Nat)
  | activate (patch : Nat)
  | revert (patch : Nat)
  | remove (patch : Nat)
  | detach (patch : Nat)
  deriving DecidableEq

namespace Call

/-- The guard that is taken, with its region. -/
def taken? : Call → Option (Memory.Region × Nat)
  | protect region (some g) => some (region, g)
  | _ => none

/-- The call releases the guard. -/
def releases (g : Nat) : Call → Bool
  | release g' _ => g' = g
  | _ => false

theorem releases_iff
    {c : Call} {g : Nat} :
    c.releases g = true ↔ ∃ region, c = release g region := by
  cases c with
  | release g' region => simp [releases]
  | _ => simp [releases]

/-- No guard is taken or released. -/
def IsQuiet (c : Call) : Prop := c.taken? = none ∧ ∀ g, c.releases g = false

end Call

/-- A host's state, the calls so far, and the host's numbers for guards and patches, listed by the
numbers of the journal. -/
structure Journal (σ : Type) where
  state : σ
  calls : List Call := []
  guards : List (Nat × Memory.Region) := []
  patches : List Nat := []

variable {σ : Type}

namespace Journal

/-- A call that leaves a state. -/
def note (c : Call) (s : σ) (j : Journal σ) : Journal σ :=
  { j with state := s, calls := j.calls ++ [c] }

/-- The host's number for a patch. -/
def patch (j : Journal σ) (p : Nat) : Nat := (j.patches[p]?).getD p

/-- The region of a guard. -/
def regionOf (j : Journal σ) (g : Nat) : Option Memory.Region := (j.guards[g]?).map (·.2)

@[simp] theorem note_calls
    (c : Call) (s : σ) (j : Journal σ) :
    (j.note c s).calls = j.calls ++ [c] :=
  rfl

@[simp] theorem note_guards
    (c : Call) (s : σ) (j : Journal σ) :
    (j.note c s).guards = j.guards :=
  rfl

end Journal

/-- The host that does what another one does and keeps a journal. -/
def Host.watched (host : Host σ) : Host (Journal σ) where
  createAllocator := fun span j =>
    let (allocator, s) := host.createAllocator span j.state
    (allocator, j.note (.createAllocator span) s)
  dropAllocator := fun a j => j.note (.dropAllocator a) (host.dropAllocator a j.state)
  protect := fun region j =>
    match host.protect region j.state with
    | (none, s) => (none, j.note (.protect region none) s)
    | (some g, s) =>
      (some j.guards.length,
        { j.note (.protect region (some j.guards.length)) s with guards := j.guards ++ [(g, region)] })
  release := fun guard j =>
    match j.guards[guard]? with
    | none => j
    | some (g, region) => j.note (.release guard region) (host.release g j.state)
  build := fun site a j =>
    match host.build site a j.state with
    | (.built p, s) =>
      (.built j.patches.length,
        { j.note (.build site (some j.patches.length)) s with patches := j.patches ++ [p] })
    | (.refused, s) => (.refused, j.note (.build site none) s)
    | (.abandoned, s) => (.abandoned, j.note (.build site none) s)
  activate := fun p j =>
    let (switched, s) := host.activate (j.patch p) j.state
    (switched, j.note (.activate p) s)
  revert := fun p j => j.note (.revert p) (host.revert (j.patch p) j.state)
  isActive := fun p j => host.isActive (j.patch p) j.state
  remove := fun p j => j.note (.remove p) (host.remove (j.patch p) j.state)
  detach := fun p j => j.note (.detach p) (host.detach (j.patch p) j.state)

/-- The protection of memory after some calls: taking a guard allows everything in its region, and
releasing it restores the protection that the region was recorded with. -/
def protectionAfter (calls : List Call) (initial : Nat → Memory.Protection) : Nat → Memory.Protection :=
  calls.foldl (fun protection c =>
    match c with
    | .protect region (some _) => fun a =>
      if region.range.contains a then .all else protection a
    | .release _ region => fun a =>
      if region.range.contains a then region.protection else protection a
    | _ => protection) initial

/-- Where everything is allowed, it stays so until a guard that covers the address is released. -/
theorem protectionAfter_stays
    {a : Nat} (calls : List Call) {initial : Nat → Memory.Protection}
    (hinitial : initial a = .all)
    (hcalls : ∀ g region, .release g region ∈ calls → region.range.contains a = false) :
    protectionAfter calls initial a = .all := by
  unfold protectionAfter
  induction calls generalizing initial with
  | nil =>
      exact hinitial
  | cons c rest ih =>
      rw [List.foldl_cons]
      refine ih ?_ fun g region hmem => hcalls g region (List.mem_cons_of_mem c hmem)
      cases c with
      | protect region guard =>
          cases guard with
          | none =>
              exact hinitial
          | some g =>
              simp only [hinitial, ite_self]
      | release g region =>
          have hmiss := hcalls g region List.mem_cons_self
          simp only [hmiss, hinitial, Bool.false_eq_true, if_false]
      | _ =>
          exact hinitial

/-- After a guard was taken, everything is allowed in its region until a guard is released there. -/
theorem protectionAfter_protected
    {a g : Nat} {region : Memory.Region} (earlier later : List Call)
    (initial : Nat → Memory.Protection)
    (ha : region.range.contains a = true)
    (hlater : ∀ g' region', .release g' region' ∈ later → region'.range.contains a = false) :
    protectionAfter (earlier ++ .protect region (some g) :: later) initial a = .all := by
  have hsplit : protectionAfter (earlier ++ .protect region (some g) :: later) initial =
      protectionAfter later fun b =>
        if region.range.contains b then .all else protectionAfter earlier initial b := by
    simp only [protectionAfter, List.foldl_append, List.foldl_cons]
  rw [hsplit]
  exact protectionAfter_stays later (by simp only [ha, if_true]) hlater

/-! ## Guards taken and released -/

namespace Journal

/-- The releases of a guard that there have to be, if some guards are still held. -/
def due (j : Journal σ) (held : List Nat) (g : Nat) : List Call :=
  if g ∈ held then [] else ((j.regionOf g).map (Call.release g)).toList

/-- Guards are numbered as they are taken, and released once, except for those still held. -/
structure Balanced (held : List Nat) (j : Journal σ) : Prop where
  taken : j.calls.filterMap Call.taken? = (j.guards.map (·.2)).zipIdx
  released : ∀ g, j.calls.filter (Call.releases g) = j.due held g
  known : ∀ g ∈ held, g < j.guards.length
  distinct : held.Nodup

/-- Nothing has happened yet. -/
theorem balanced_empty
    (s : σ) :
    Balanced [] { state := s } where
  taken := rfl
  released := fun _ => rfl
  known := by simp
  distinct := List.nodup_nil

namespace Balanced

variable {held held' : List Nat} {j j' : Journal σ} {g : Nat} {region : Memory.Region}

theorem perm
    (h : Balanced held j)
    (hperm : held.Perm held') :
    Balanced held' j where
  taken := h.taken
  released := by
    intro g
    simp only [h.released g, due, hperm.mem_iff]
  known := fun g hg => h.known g (hperm.mem_iff.2 hg)
  distinct := hperm.nodup_iff.1 h.distinct

/-- No guard that is held has been released. -/
theorem not_released
    (h : Balanced held j)
    (hg : g ∈ held) :
    .release g region ∉ j.calls := by
  intro hmem
  have hin : .release g region ∈ j.calls.filter (Call.releases g) :=
    List.mem_filter.2 ⟨hmem, Call.releases_iff.2 ⟨region, rfl⟩⟩
  rw [h.released g, due, if_pos hg] at hin
  cases hin

/-- The guards taken by later calls have numbers that were not given out before. -/
theorem fresh
    (h : Balanced held j)
    (h' : Balanced held' j')
    {calls : List Call}
    (hcalls : j'.calls = j.calls ++ calls)
    (htaken : .protect region (some g) ∈ calls) :
    j.guards.length ≤ g := by
  have hall := h'.taken
  rw [hcalls, List.filterMap_append, h.taken] at hall
  have hdrop : calls.filterMap Call.taken? = (j'.guards.map (·.2)).zipIdx.drop j.guards.length := by
    rw [← hall, List.drop_left' (by simp)]
  have hmem : (region, g) ∈ calls.filterMap Call.taken? :=
    List.mem_filterMap.2 ⟨_, htaken, rfl⟩
  rw [hdrop] at hmem
  obtain ⟨i, hi, hget⟩ := List.mem_iff_getElem.1 hmem
  rw [List.getElem_drop, List.getElem_zipIdx, Prod.mk.injEq] at hget
  omega

/-- A call that has nothing to do with guards. -/
theorem quiet
    (h : Balanced held j)
    {c : Call}
    (hquiet : c.IsQuiet)
    (hcalls : j'.calls = j.calls ++ [c])
    (hguards : j'.guards = j.guards) :
    Balanced held j' where
  taken := by
    rw [hcalls, hguards, List.filterMap_append, h.taken, List.filterMap_cons_none hquiet.1]
    exact List.append_nil _
  released := by
    intro g
    have hdue : j'.due held g = j.due held g := by
      simp only [due, regionOf, hguards]
    rw [hcalls, hdue, List.filter_append, h.released g, List.filter_cons_of_neg (by simp [hquiet.2 g])]
    exact List.append_nil _
  known := by
    rw [hguards]
    exact h.known
  distinct := h.distinct

/-- A guard is taken, or the region is refused. -/
theorem protect
    (h : Balanced held j)
    (host : Host σ) (region : Memory.Region) :
    ∃ guard j', host.watched.protect region j = (guard, j') ∧
      j'.calls = j.calls ++ [.protect region guard] ∧ Balanced (guard.toList ++ held) j' := by
  cases hprotect : host.protect region j.state with
  | mk guard s =>
      cases guard with
      | none =>
          refine ⟨none, j.note (.protect region none) s, ?_, rfl, ?_⟩
          · simp only [Host.watched, hprotect]
          · exact h.quiet ⟨rfl, fun _ => rfl⟩ rfl rfl
      | some inner =>
          let n := j.guards.length
          let j' : Journal σ :=
            { j.note (.protect region (some n)) s with guards := j.guards ++ [(inner, region)] }
          have hnew : n ∉ held := fun hmem => Nat.lt_irrefl _ (h.known n hmem)
          refine ⟨some n, j', ?_, rfl, ?_⟩
          · simp only [Host.watched, hprotect, n, j']
          · refine ⟨?_, ?_, ?_, List.nodup_cons.2 ⟨hnew, h.distinct⟩⟩
            · simp [j', n, h.taken, Call.taken?, List.zipIdx_append]
            · intro g
              have hcalls : j'.calls.filter (Call.releases g) = j.calls.filter (Call.releases g) := by
                simp [j', Call.releases]
              rw [hcalls, h.released g]
              by_cases hg : g = n
              · subst hg
                simp [due, regionOf, hnew, n]
              · have hregion : j'.regionOf g = j.regionOf g := by
                  simp only [regionOf, j']
                  by_cases hlt : g < n
                  · rw [List.getElem?_append_left hlt]
                  · have hout : n + 1 ≤ g := by omega
                    rw [List.getElem?_eq_none (by simpa using hout),
                      List.getElem?_eq_none (Nat.le_of_succ_le hout)]
                simp only [due, hregion, Option.toList_some, List.singleton_append, List.mem_cons, hg,
                  false_or]
            · intro g hg
              simp only [j', List.length_append, List.length_singleton]
              obtain rfl | hold := List.mem_cons.1 hg
              · exact Nat.lt_succ_self _
              · exact Nat.lt_succ_of_lt (h.known g hold)

/-- A guard that is held is released. -/
theorem release
    (h : Balanced (g :: held) j)
    (host : Host σ) :
    ∃ region, (host.watched.release g j).calls = j.calls ++ [.release g region] ∧
      Balanced held (host.watched.release g j) := by
  have hlt := h.known g List.mem_cons_self
  obtain ⟨hnew, hdistinct⟩ := List.nodup_cons.1 h.distinct
  obtain ⟨⟨inner, region⟩, hget⟩ : ∃ x, j.guards[g]? = some x := ⟨_, List.getElem?_eq_getElem hlt⟩
  have hrelease : host.watched.release g j =
      j.note (.release g region) (host.release inner j.state) := by
    simp only [Host.watched, hget]
  rw [hrelease]
  refine ⟨region, rfl, ?_, ?_, fun g' hg' => h.known g' (List.mem_cons_of_mem g hg'), hdistinct⟩
  · simp [h.taken, Call.taken?]
  · intro g'
    rw [note_calls, List.filter_append, h.released g']
    by_cases hg' : g' = g
    · subst hg'
      simp [due, regionOf, hnew, hget, Call.releases]
    · have hne : ¬ g = g' := fun heq => hg' heq.symm
      simp [due, regionOf, hg', hne, Call.releases]

end Balanced

end Journal

end CallProfiler.Image
