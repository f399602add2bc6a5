import CallProfiler.Proofs.Image.Obliging

/-!
# Hosts that may fail

Any request to a host can be refused or fail, in any pattern.  `Host.Fallible` says what can be relied
on all the same: a patch is new when it is built, it is the only one that is switched on, switched off
or ended when that is asked for, and if switching on fails a patch that was off stays off.

**Main statements.**
* `relax_keeps`, `releaseAll_keeps`: making code writable, and as it was, touches no patch.
* `Rehearsal.host_fallible`: the host for rehearsals is one, with any faults arranged.
-/

namespace CallProfiler.Image

variable {σ : Type}

/-- In the states that are `fit`, which are never left, the host does to its patches what it is asked
for or nothing; `patches` tells which patches are alive. -/
structure Host.Fallible
    (host : Host σ) (fit : σ → Prop) (patches : σ → Nat → Option LivePatch) : Prop where
  createAllocator : ∀ span {s}, fit s →
    fit (host.createAllocator span s).2 ∧ patches (host.createAllocator span s).2 = patches s
  dropAllocator : ∀ a {s}, fit s →
    fit (host.dropAllocator a s) ∧ patches (host.dropAllocator a s) = patches s
  protect : ∀ region {s}, fit s →
    fit (host.protect region s).2 ∧ patches (host.protect region s).2 = patches s
  release : ∀ guard {s}, fit s →
    fit (host.release guard s) ∧ patches (host.release guard s) = patches s
  build : ∀ site a {s}, fit s → fit (host.build site a s).2 ∧
    match (host.build site a s).1 with
    | .built p => patches s p = none ∧
        patches (host.build site a s).2 =
          Function.update (patches s) p (some ⟨site.address, false⟩)
    | _ => patches (host.build site a s).2 = patches s
  activate : ∀ p {s lp}, fit s → patches s p = some lp → fit (host.activate p s).2 ∧
    ∃ active,
      patches (host.activate p s).2 = Function.update (patches s) p (some { lp with active }) ∧
      ((host.activate p s).1 = .failed → active = true → lp.active = true)
  revert : ∀ p {s lp}, fit s → patches s p = some lp → fit (host.revert p s) ∧
    ∃ active, patches (host.revert p s) = Function.update (patches s) p (some { lp with active })
  isActive : ∀ p {s}, fit s → host.isActive p s = (patches s p).any (·.active)
  remove : ∀ p {s}, fit s →
    fit (host.remove p s) ∧ patches (host.remove p s) = Function.update (patches s) p none
  detach : ∀ p {s}, fit s →
    fit (host.detach p s) ∧ patches (host.detach p s) = Function.update (patches s) p none

namespace Host.Fallible

variable {host : Host σ} {fit : σ → Prop} {patches : σ → Nat → Option LivePatch}

theorem releaseAll_keeps
    (hhost : host.Fallible fit patches)
    (guards : List Nat) {s : σ}
    (hs : fit s) :
    fit (host.releaseAll guards s) ∧ patches (host.releaseAll guards s) = patches s := by
  induction guards generalizing s with
  | nil =>
      exact ⟨hs, rfl⟩
  | cons guard rest ih =>
      have hrelease := hhost.release guard hs
      have hrest := ih hrelease.1
      exact ⟨hrest.1, hrest.2.trans hrelease.2⟩

theorem relaxFrom_keeps
    (hhost : host.Fallible fit patches)
    (regions : List Memory.Region) (taken : List Nat) {s : σ}
    (hs : fit s) :
    fit (host.relaxFrom taken regions s).2 ∧
      patches (host.relaxFrom taken regions s).2 = patches s := by
  induction regions generalizing taken s with
  | nil =>
      exact ⟨hs, rfl⟩
  | cons region rest ih =>
      have hprotect := hhost.protect region hs
      simp only [Host.relaxFrom]
      cases hgiven : host.protect region s with
      | mk guard s1 =>
          rw [hgiven] at hprotect
          cases guard with
          | none =>
              have hrelease := hhost.releaseAll_keeps taken hprotect.1
              exact ⟨hrelease.1, hrelease.2.trans hprotect.2⟩
          | some guard =>
              have hrest := ih (taken ++ [guard]) hprotect.1
              exact ⟨hrest.1, hrest.2.trans hprotect.2⟩

theorem relax_keeps
    (hhost : host.Fallible fit patches)
    (mapping : Mapping) {s : σ}
    (hs : fit s) :
    fit (host.relax mapping s).2 ∧ patches (host.relax mapping s).2 = patches s :=
  hhost.relaxFrom_keeps mapping.executableRegions [] hs

/-- A patch that is ended gives way to none. -/
theorem end_trades
    (hhost : host.Fallible fit patches)
    {p : Nat} {lp : LivePatch} {s : σ}
    (hs : fit s)
    (hlive : patches s p = some lp) :
    fit (host.remove p (host.revert p s)) ∧
      Trades (patches s) (patches (host.remove p (host.revert p s))) (some p) none := by
  obtain ⟨hs1, active, hview1⟩ := hhost.revert p hs hlive
  obtain ⟨hs2, hview2⟩ := hhost.remove p hs1
  refine ⟨hs2, ?_⟩
  have hchange := Trades.change (patches s) p { lp with active }
  rw [← hview1] at hchange
  have hlose := Trades.lose (patches (host.revert p s)) p
  rw [← hview2] at hlose
  exact hchange.trans hlose

end Host.Fallible

/-! ## Rehearsals -/

namespace Rehearsal

/-- What is arranged to go wrong has no part in the numbers. -/
theorem Numbered.faultless
    {r : Rehearsal}
    (h : r.Numbered) :
    Faultless { r with faults := [], refusals := [] } :=
  ⟨rfl, rfl, h⟩

/-- Switching a patch, or trying to. -/
theorem numbered_switch
    {r : Rehearsal} {patch : Nat} {lp : LivePatch}
    (h : r.Numbered)
    (hlive : r.livePatch patch = some lp)
    (active : Bool) :
    Numbered (r.setActive patch active) ∧
      (r.setActive patch active).livePatch =
        Function.update r.livePatch patch (some { lp with active }) :=
  ⟨(h.faultless.setActive patch active).numbered, livePatch_setActive hlive active⟩

/-- **The host for rehearsals is fallible**, whatever faults are arranged. -/
theorem host_fallible
    (log : String) :
    (host log).Fallible Numbered livePatch where
  createAllocator := by
    intro span r h
    simp only [host, createAllocator]
    split
    · exact ⟨h, rfl⟩
    · exact ⟨fun k x hx => Nat.lt_succ_of_lt (h k x hx), rfl⟩
  dropAllocator := fun a r h => ⟨h, rfl⟩
  protect := by
    intro region r h
    simp only [host, protect]
    split
    · exact ⟨h, rfl⟩
    · exact ⟨fun k x hx => Nat.lt_succ_of_lt (h k x hx), rfl⟩
  release := by
    intro guard r h
    simp only [host, release]
    cases r.guards.lookup guard with
    | none =>
        exact ⟨h, rfl⟩
    | some region =>
        exact ⟨h, rfl⟩
  build := by
    intro site a r h
    have hadd := fun x lines => numbered_add h x lines
    have hfresh := livePatch_fresh h
    simp only [host, build, note]
    cases r.faults.lookup site.address with
    | none =>
        exact ⟨(hadd _ _).1, hfresh, (hadd _ _).2⟩
    | some fault =>
        cases fault with
        | refuse =>
            exact ⟨h, rfl⟩
        | abandon =>
            exact ⟨h, rfl⟩
        | _ =>
            exact ⟨(hadd _ _).1, hfresh, (hadd _ _).2⟩
  activate := by
    intro p r lp h hlive
    obtain ⟨lines, hnote⟩ := notePatch_eq log "activate" p r
    have hlogged : Numbered { r with log := lines } := h
    have hstays : ∀ outcome : Switched, Numbered { r with log := lines } ∧ ∃ active,
        livePatch { r with log := lines } =
          Function.update r.livePatch p (some { lp with active }) ∧
        (outcome = .failed → active = true → lp.active = true) := by
      intro outcome
      refine ⟨hlogged, lp.active, ?_, fun _ hactive => hactive⟩
      exact (Function.update_eq_self_iff.2 hlive.symm).symm
    have hgoes := numbered_switch hlogged hlive true
    simp only [host, activate, hnote]
    split
    · exact hstays _
    · exact hstays _
    · exact hstays _
    · refine ⟨hgoes.1, true, hgoes.2, ?_⟩
      intro hfailed
      cases hfailed
  revert := by
    intro p r lp h hlive
    obtain ⟨lines, hnote⟩ := notePatch_eq log "revert" p r
    have hlogged : Numbered { r with log := lines } := h
    have hgoes := numbered_switch hlogged hlive false
    simp only [host, revert, hnote]
    split
    · refine ⟨hlogged, lp.active, ?_⟩
      exact (Function.update_eq_self_iff.2 hlive.symm).symm
    · exact ⟨hgoes.1, false, hgoes.2⟩
  isActive := by
    intro p r _
    simp only [host, livePatch]
    cases r.patches.lookup p <;> rfl
  remove := by
    intro p r h
    obtain ⟨lines, hremove⟩ := remove_eq log p r
    have hlogged : Numbered { r with log := lines } := h
    rw [hremove]
    exact ⟨(hlogged.faultless.forget p).numbered, livePatch_forget _ p⟩
  detach := by
    intro p r h
    obtain ⟨lines, hdetach⟩ := detach_eq log p r
    have hlogged : Numbered { r with log := lines } := h
    rw [hdetach]
    exact ⟨(hlogged.faultless.forget p).numbered, livePatch_forget _ p⟩

end Rehearsal

end CallProfiler.Image
