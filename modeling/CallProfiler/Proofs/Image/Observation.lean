import CallProfiler.Proofs.Image.Journal
import CallProfiler.Proofs.Image.Stages

/-!
# Stages under observation

What a stage adds to the journal of a watched host: preparations have nothing to do with patches, a patch
that is built gets the next number, and code that cannot be made writable has a region that was refused.

**Main statements.**
* `Host.watched_built`, `Host.watched_unbuilt`: the construction of a patch.
* `Host.Prepares.calls`: preparations.
* `Host.relax_refused`: code that cannot be made writable.
-/

namespace CallProfiler.Image

variable {σ : Type}

/-- The call builds, switches, ends or gives up a patch. -/
def Call.onPatches : Call → Bool
  | .build _ _ | .activate _ | .revert _ | .remove _ | .detach _ => true
  | _ => false

variable (host : Host σ) {j j' : Journal σ}

/-- A patch that is built gets the next number. -/
theorem Host.watched_built
    {site : Site} {a p : Nat}
    (h : host.watched.build site a j = (.built p, j')) :
    p = j.patches.length ∧ j'.calls = j.calls ++ [.build site (some p)] ∧
      j'.patches.length = j.patches.length + 1 := by
  simp only [Host.watched] at h
  split at h <;> cases h
  exact ⟨rfl, rfl, List.length_append⟩

theorem Host.watched_unbuilt
    {site : Site} {a : Nat} {built : Built}
    (h : host.watched.build site a j = (built, j'))
    (hbuilt : ∀ p, built ≠ .built p) :
    j'.calls = j.calls ++ [.build site none] ∧ j'.patches = j.patches := by
  simp only [Host.watched] at h
  split at h <;> cases h
  · exact absurd rfl (hbuilt _)
  · exact ⟨rfl, rfl⟩
  · exact ⟨rfl, rfl⟩

theorem Host.watched_ended
    (p : Nat) (j : Journal σ) :
    (host.watched.remove p (host.watched.revert p j)).calls = j.calls ++ [.revert p, .remove p] :=
  List.append_assoc j.calls [.revert p] [.remove p]

theorem Host.watched_protect
    (region : Memory.Region) (j : Journal σ) :
    (host.watched.protect region j).2.calls =
      j.calls ++ [.protect region (host.watched.protect region j).1] := by
  simp only [Host.watched]
  split <;> rfl

theorem Host.watched_releaseAll
    (guards : List Nat) (j : Journal σ) :
    ∃ calls, (host.watched.releaseAll guards j).calls = j.calls ++ calls ∧
      ∀ region guard, .protect region guard ∉ calls := by
  induction guards generalizing j with
  | nil => exact ⟨[], (List.append_nil _).symm, by simp⟩
  | cons guard rest ih =>
      have hfirst : ∃ calls, (host.watched.release guard j).calls = j.calls ++ calls ∧
          ∀ region guard, .protect region guard ∉ calls := by
        simp only [Host.watched]
        split
        · exact ⟨[], (List.append_nil _).symm, by simp⟩
        · next g region _ => exact ⟨[.release guard region], rfl, by simp⟩
      obtain ⟨calls, hcalls, hnone⟩ := hfirst
      obtain ⟨calls', hcalls', hnone'⟩ := ih (host.watched.release guard j)
      refine ⟨calls ++ calls', ?_, ?_⟩
      · rw [← List.append_assoc, ← hcalls]
        exact hcalls'
      · intro region guard hmem
        exact (List.mem_append.1 hmem).elim (hnone region guard) (hnone' region guard)

/-- The latest attempt to make code writable was refused, for a region of the mapping. -/
def Denied (calls : List Call) (mapping : Mapping) : Prop :=
  ∃ region ∈ mapping.executableRegions, ∃ earlier later,
    calls = earlier ++ .protect region none :: later ∧ ∀ region' guard, .protect region' guard ∉ later

theorem Denied.append_left
    {calls : List Call} {mapping : Mapping}
    (h : Denied calls mapping)
    (before : List Call) :
    Denied (before ++ calls) mapping := by
  obtain ⟨region, hregion, earlier, later, rfl, hlater⟩ := h
  exact ⟨region, hregion, before ++ earlier, later, (List.append_assoc _ _ _).symm, hlater⟩

theorem Denied.append_right
    {calls later : List Call} {mapping : Mapping}
    (h : Denied calls mapping)
    (hlater : ∀ region guard, .protect region guard ∉ later) :
    Denied (calls ++ later) mapping := by
  obtain ⟨region, hregion, earlier, since, rfl, hsince⟩ := h
  refine ⟨region, hregion, earlier, since ++ later, List.append_assoc _ _ _, ?_⟩
  intro region' guard hmem
  exact (List.mem_append.1 hmem).elim (hsince region' guard) (hlater region' guard)

/-- If code cannot be made writable, one of its regions was refused. -/
theorem Host.relax_refused
    {mapping : Mapping}
    (h : host.watched.relax mapping j = (none, j')) :
    ∃ calls, j'.calls = j.calls ++ calls ∧ Denied calls mapping := by
  have hregions : ∀ (regions : List Memory.Region) (taken : List Nat) (j : Journal σ),
      (∀ region ∈ regions, region ∈ mapping.executableRegions) →
      host.watched.relaxFrom taken regions j = (none, j') →
      ∃ calls, j'.calls = j.calls ++ calls ∧ Denied calls mapping := by
    intro regions
    induction regions with
    | nil =>
        intro taken j _ hnone
        cases hnone
    | cons region rest ih =>
        intro taken j hall hnone
        obtain ⟨hregion, hrest⟩ := List.forall_mem_cons.1 hall
        have hcalls := host.watched_protect region j
        unfold Host.relaxFrom at hnone
        cases hgiven : host.watched.protect region j with
        | mk guard j1 =>
            rw [hgiven] at hcalls hnone
            cases guard with
            | none =>
                obtain ⟨released, hreleased, hlater⟩ := host.watched_releaseAll taken j1
                have hafter : host.watched.releaseAll taken j1 = j' := congrArg Prod.snd hnone
                refine ⟨.protect region none :: released, ?_, region, hregion, [], released, rfl, ?_⟩
                · rw [← hafter, hreleased, hcalls, List.append_assoc]
                  rfl
                · exact hlater
            | some guard =>
                obtain ⟨calls, hcalls', hdenied⟩ := ih (taken ++ [guard]) j1 hrest hnone
                refine ⟨.protect region (some guard) :: calls, ?_, hdenied.append_left [_]⟩
                rw [hcalls', hcalls, List.append_assoc]
                rfl
  exact hregions mapping.executableRegions [] j (fun _ hregion => hregion) h

/-- Preparations have nothing to do with patches. -/
theorem Host.Prepares.calls
    (h : host.watched.Prepares j j') :
    j'.patches = j.patches ∧
      ∃ calls, j'.calls = j.calls ++ calls ∧ ∀ c ∈ calls, c.onPatches = false := by
  cases h with
  | createAllocator span => exact ⟨rfl, [.createAllocator span], rfl, by simp [Call.onPatches]⟩
  | dropAllocator a => exact ⟨rfl, [.dropAllocator a], rfl, by simp [Call.onPatches]⟩
  | protect region =>
      simp only [Host.watched]
      split
      · exact ⟨rfl, [.protect region none], rfl, by simp [Call.onPatches]⟩
      · exact ⟨rfl, [.protect region (some j.guards.length)], rfl, by simp [Call.onPatches]⟩
  | release guard =>
      simp only [Host.watched]
      split
      · exact ⟨rfl, [], (List.append_nil _).symm, by simp⟩
      · next g region _ => exact ⟨rfl, [.release guard region], rfl, by simp [Call.onPatches]⟩

/-- Any preparations have nothing to do with patches. -/
theorem Host.calls_of_prepares
    (h : Relation.ReflTransGen host.watched.Prepares j j') :
    j'.patches = j.patches ∧
      ∃ calls, j'.calls = j.calls ++ calls ∧ ∀ c ∈ calls, c.onPatches = false := by
  induction h with
  | refl => exact ⟨rfl, [], (List.append_nil _).symm, by simp⟩
  | tail _ hlast ih =>
      obtain ⟨hpatches, calls, hcalls, hquiet⟩ := ih
      obtain ⟨hpatches', calls', hcalls', hquiet'⟩ := hlast.calls
      refine ⟨hpatches'.trans hpatches, calls ++ calls', ?_, ?_⟩
      · rw [hcalls', hcalls, List.append_assoc]
      · intro c hc
        exact (List.mem_append.1 hc).elim (hquiet c) (hquiet' c)

end CallProfiler.Image
