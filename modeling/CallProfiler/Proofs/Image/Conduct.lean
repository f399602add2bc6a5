import CallProfiler.Proofs.Image.Journal

/-!
# What a registry does in the course of an act

While a request is served, an event followed or a registry ended, calls are made of the host, whatever
goes wrong.  `Underway` is what can be said at every moment of that: guards taken in this act cover the
code in hand, every call so far was proper (`Call.Allowed`), and no patch has been lost.  One step lemma
says what a call preserves, and the calls of the host are cases of it.

**Main statements.**
* `Underway.step`: one call.
* `Underway.build`, `Underway.activate`, `Underway.remove`, `Underway.detach`: patches come, are
  switched and go.
* `Underway.relax`, `Underway.lock`, `Underway.unlock`: code is made writable and is as it was again.
-/

namespace CallProfiler.Image

open Journal (Balanced)

variable {σ : Type}

/-! ## Acts -/

/-- The regions of the code that a lock keeps writable. -/
def codeOf (l : Option Lock) : List Memory.Region := l.elim [] (·.mapping.executableRegions)

/-- The guards that a lock holds. -/
def guardsOf (l : Option Lock) : List Nat := l.elim [] (·.guards)

/-- What is known when an act begins. -/
structure Errand where
  /-- The current mapping of a module. -/
  current : Nat → Option Mapping
  /-- The patches that records of a module hold. -/
  own : Nat → Nat → Prop
  /-- The module for which patches may be built. -/
  concerned : Option Nat
  /-- The calls made before. -/
  past : List Call

/-- Guards that were taken and not released cover the code of a mapping. -/
def Guarded (calls : List Call) (mapping : Mapping) : Prop :=
  ∀ region ∈ mapping.executableRegions, ∃ g, .protect region (some g) ∈ calls ∧
    ∀ region', .release g region' ∉ calls

namespace Errand

/-- The calls of the act. -/
def calls (x : Errand) (j : Journal σ) : List Call := j.calls.drop x.past.length

/-- The call builds a patch for the module. -/
def Builds (x : Errand) (c : Call) (module p : Nat) : Prop :=
  x.concerned = some module ∧ ∃ site, c = .build site (some p)

/-- A record of the module held the patch, or it was built for the module in the act. -/
def Has (x : Errand) (calls : List Call) (module p : Nat) : Prop :=
  x.own module p ∨ ∃ c ∈ calls, x.Builds c module p

/-- The patch is a module's, and the code of the module's current mapping is guarded. -/
def Reaches (x : Errand) (calls : List Call) (p : Nat) : Prop :=
  ∃ module mapping, x.Has calls module p ∧ x.current module = some mapping ∧ Guarded calls mapping

/-- The mappings that can be held are the current ones of the modules that a registry knows. -/
def Pins (x : Errand) (pin : Nat → Option Mapping) (g : Registry) : Prop :=
  ∀ k ∈ g.mappings, ∀ mapping, pin k.mapping = some mapping → x.current k.module = some mapping

theorem Pins.of_mappings
    {x : Errand} {pin : Nat → Option Mapping} {g g' : Registry}
    (h : x.Pins pin g)
    (hmappings : g'.mappings = g.mappings) :
    x.Pins pin g' := by
  unfold Pins
  rw [hmappings]
  exact h

/-- The lock, if there is one, holds the current mapping of the module. -/
def Places (x : Errand) (module : Nat) (l : Option Lock) : Prop :=
  ∀ k, l = some k → x.current module = some k.mapping

end Errand

/-- What a call may do after earlier ones of the same act: only code of current mappings is made
writable, and a patch is built, switched or ended only while guards cover the code of the current
mapping of its module. -/
def Call.Allowed (x : Errand) (earlier : List Call) : Call → Prop
  | .protect region _ =>
    ∃ module mapping, x.current module = some mapping ∧ region ∈ mapping.executableRegions
  | .build site _ =>
    ∃ module mapping offset, x.concerned = some module ∧ x.current module = some mapping ∧
      site.address = mapping.addressOf offset ∧ Guarded earlier mapping
  | .activate p => x.Reaches earlier p
  | .revert p => x.Reaches earlier p
  | .remove p => x.Reaches earlier p
  | _ => True

/-- In the course of an act: `covered` are the regions that guards taken in the act cover, `own` says
which patches the modules have now, and `held` are all guards that are held. -/
structure Underway (x : Errand) (covered : List Memory.Region) (own : Nat → Nat → Prop)
    (held : List Nat) (j : Journal σ) : Prop where
  begun : x.past <+: j.calls
  balanced : Balanced held j
  covers : ∀ region ∈ covered, ∃ g ∈ held, .protect region (some g) ∈ x.calls j
  proper : ∀ earlier c later, x.calls j = earlier ++ c :: later → c.Allowed x earlier
  kept : ∀ module p, x.Has (x.calls j) module p →
    own module p ∨ .remove p ∈ x.calls j ∨ .detach p ∈ x.calls j
  origin : ∀ module p, own module p → x.Has (x.calls j) module p

/-- A call in a list that ends with another one. -/
theorem split_of_concat
    {α : Type} {l before after : List α} {a c : α}
    (h : l ++ [c] = before ++ a :: after) :
    (l = before ∧ c = a) ∨ ∃ after', l = before ++ a :: after' := by
  obtain rfl | ⟨after', last, rfl⟩ := List.eq_nil_or_concat after
  · left
    exact ⟨(List.append_inj' h rfl).1, List.singleton_inj.1 (List.append_inj' h rfl).2⟩
  · right
    refine ⟨after', ?_⟩
    rw [List.concat_eq_append, ← List.cons_append, ← List.append_assoc] at h
    exact (List.append_inj' h rfl).1

namespace Underway

variable {x : Errand} {covered covered' : List Memory.Region} {own own' : Nat → Nat → Prop}
  {held held' : List Nat} {j j' : Journal σ} {c : Call} {module p : Nat} {mapping : Mapping}

/-- An act begins. -/
theorem start
    (current : Nat → Option Mapping) (own : Nat → Nat → Prop) (concerned : Option Nat)
    (h : Balanced held j) :
    Underway ⟨current, own, concerned, j.calls⟩ [] own held j := by
  have hcalls : Errand.calls ⟨current, own, concerned, j.calls⟩ j = [] := List.drop_length
  refine ⟨List.prefix_refl _, h, by simp, ?_, ?_, fun _ _ hown => .inl hown⟩
  · intro earlier c later hsplit
    rw [hcalls] at hsplit
    exact absurd hsplit.symm (List.append_ne_nil_of_right_ne_nil _ (List.cons_ne_nil _ _))
  · intro module p hhas
    rw [hcalls] at hhas
    obtain hown | ⟨c, hc, _⟩ := hhas
    · exact .inl hown
    · cases hc

theorem congr
    (h : Underway x covered own held j)
    (hown : ∀ module p, own' module p ↔ own module p) :
    Underway x covered own' held j :=
  (funext fun module => funext fun p => propext (hown module p) : own' = own) ▸ h

theorem guards
    (h : Underway x covered own held j)
    (hperm : held.Perm held') :
    Underway x covered own held' j :=
  { h with
    balanced := h.balanced.perm hperm
    covers := fun region hregion =>
      (h.covers region hregion).imp fun _ hg => ⟨hperm.mem_iff.1 hg.1, hg.2⟩ }

/-- Nothing is said any more of what is covered. -/
theorem uncovered
    (h : Underway x covered own held j) :
    Underway x [] own held j :=
  { h with covers := by simp }

/-- The journal is what it was, followed by the calls of the act. -/
theorem calls_eq
    (h : Underway x covered own held j) :
    j.calls = x.past ++ x.calls j :=
  (List.prefix_iff_eq_append.1 h.begun).symm

theorem calls_of_concat
    (h : Underway x covered own held j)
    (hcalls : j'.calls = j.calls ++ [c]) :
    x.calls j' = x.calls j ++ [c] := by
  rw [Errand.calls, hcalls, List.drop_append_of_le_length h.begun.length_le]
  rfl

/-- **What a call preserves.** -/
theorem step
    (h : Underway x covered own held j)
    (hcalls : j'.calls = j.calls ++ [c])
    (hbalanced : Balanced held' j')
    (hcovers : ∀ region ∈ covered',
      ∃ g ∈ held', .protect region (some g) ∈ x.calls j ∨ c = .protect region (some g))
    (hallowed : c.Allowed x (x.calls j))
    (hkept : ∀ module p, own module p ∨ x.Builds c module p →
      own' module p ∨ c = .remove p ∨ c = .detach p)
    (horigin : ∀ module p, own' module p → own module p ∨ x.Builds c module p) :
    Underway x covered' own' held' j' := by
  have hsince := h.calls_of_concat hcalls
  have hhas : ∀ module p, x.Has (x.calls j ++ [c]) module p ↔
      x.Has (x.calls j) module p ∨ x.Builds c module p := by
    intro module p
    simp only [Errand.Has, List.mem_append, List.mem_singleton, or_and_right, exists_or,
      exists_eq_left, or_assoc]
  refine ⟨?_, hbalanced, ?_, ?_, ?_, ?_⟩
  · rw [hcalls]
    exact h.begun.trans (List.prefix_append _ _)
  · intro region hregion
    obtain ⟨g, hg, htaken⟩ := hcovers region hregion
    refine ⟨g, hg, ?_⟩
    rw [hsince, List.mem_append, List.mem_singleton]
    exact htaken.imp_right Eq.symm
  · intro earlier c' later hsplit
    rw [hsince] at hsplit
    obtain ⟨rfl, rfl⟩ | ⟨later', hold⟩ := split_of_concat hsplit
    · exact hallowed
    · exact h.proper earlier c' later' hold
  · intro module p hp
    rw [hsince] at hp ⊢
    have hstays : own module p ∨ x.Builds c module p →
        own' module p ∨ .remove p ∈ x.calls j ++ [c] ∨ .detach p ∈ x.calls j ++ [c] := by
      intro hnow
      obtain hown | rfl | rfl := hkept module p hnow
      · exact .inl hown
      · exact .inr (.inl (List.mem_append_right _ List.mem_cons_self))
      · exact .inr (.inr (List.mem_append_right _ List.mem_cons_self))
    obtain hbefore | hbuilt := (hhas module p).1 hp
    · obtain hown | hremoved | hdetached := h.kept module p hbefore
      · exact hstays (.inl hown)
      · exact .inr (.inl (List.mem_append_left _ hremoved))
      · exact .inr (.inr (List.mem_append_left _ hdetached))
    · exact hstays (.inr hbuilt)
  · intro module p hown
    rw [hsince, hhas]
    exact (horigin module p hown).imp_left (h.origin module p)

/-- A call that builds and ends no patch. -/
theorem call_on_guards
    (h : Underway x covered own held j)
    (hcalls : j'.calls = j.calls ++ [c])
    (hbalanced : Balanced held' j')
    (hcovers : ∀ region ∈ covered',
      ∃ g ∈ held', .protect region (some g) ∈ x.calls j ∨ c = .protect region (some g))
    (hallowed : c.Allowed x (x.calls j))
    (hbuilds : ∀ module p, ¬ x.Builds c module p) :
    Underway x covered' own held' j' := by
  refine h.step hcalls hbalanced hcovers hallowed ?_ fun _ _ hown => .inl hown
  intro module p hp
  exact .inl (hp.resolve_right (hbuilds module p))

/-- A call that has nothing to do with guards. -/
theorem call
    (h : Underway x covered own held j)
    (hcalls : j'.calls = j.calls ++ [c])
    (hguards : j'.guards = j.guards)
    (hquiet : c.IsQuiet)
    (hallowed : c.Allowed x (x.calls j))
    (hkept : ∀ module p, own module p ∨ x.Builds c module p →
      own' module p ∨ c = .remove p ∨ c = .detach p)
    (horigin : ∀ module p, own' module p → own module p ∨ x.Builds c module p) :
    Underway x covered own' held j' := by
  refine h.step hcalls (h.balanced.quiet hquiet hcalls hguards) ?_ hallowed hkept horigin
  intro region hregion
  exact (h.covers region hregion).imp fun g hg => ⟨hg.1, .inl hg.2⟩

/-- A call that has nothing to do with guards or with what is held. -/
theorem idle_call
    (h : Underway x covered own held j)
    (hcalls : j'.calls = j.calls ++ [c])
    (hguards : j'.guards = j.guards)
    (hquiet : c.IsQuiet)
    (hallowed : c.Allowed x (x.calls j))
    (hbuilds : ∀ module p, ¬ x.Builds c module p) :
    Underway x covered own held j' := by
  refine h.call_on_guards hcalls (h.balanced.quiet hquiet hcalls hguards) ?_ hallowed hbuilds
  intro region hregion
  exact (h.covers region hregion).imp fun g hg => ⟨hg.1, .inl hg.2⟩

/-! ## Patches -/

section Patches

variable (host : Host σ)

/-- The code of a mapping is guarded while its regions are covered. -/
theorem guarded
    (h : Underway x mapping.executableRegions own held j) :
    Guarded (x.calls j) mapping := by
  intro region hregion
  obtain ⟨g, hg, htaken⟩ := h.covers region hregion
  refine ⟨g, htaken, ?_⟩
  intro region' hreleased
  exact h.balanced.not_released hg (List.mem_of_mem_drop hreleased)

theorem reaches
    (h : Underway x mapping.executableRegions own held j)
    (hcurrent : x.current module = some mapping)
    (hp : own module p) :
    x.Reaches (x.calls j) p :=
  ⟨module, mapping, h.origin module p hp, hcurrent, h.guarded⟩

theorem activate
    (h : Underway x mapping.executableRegions own held j)
    (hcurrent : x.current module = some mapping)
    (hp : own module p) :
    Underway x mapping.executableRegions own held (host.watched.activate p j).2 :=
  h.idle_call (c := .activate p) rfl rfl ⟨rfl, fun _ => rfl⟩ (h.reaches hcurrent hp)
    (by simp [Errand.Builds])

theorem revertPatch
    (h : Underway x mapping.executableRegions own held j)
    (hcurrent : x.current module = some mapping)
    (hp : own module p) :
    Underway x mapping.executableRegions own held (host.watched.revert p j) :=
  h.idle_call (c := .revert p) rfl rfl ⟨rfl, fun _ => rfl⟩ (h.reaches hcurrent hp)
    (by simp [Errand.Builds])

/-- A patch is ended, and its record lets go of it. -/
theorem remove
    (h : Underway x mapping.executableRegions own held j)
    (hcurrent : x.current module = some mapping)
    (hp : own module p)
    (hkept : ∀ module q, own module q → own' module q ∨ q = p)
    (horigin : ∀ module q, own' module q → own module q) :
    Underway x mapping.executableRegions own' held (host.watched.remove p j) := by
  refine h.call (c := .remove p) rfl rfl ⟨rfl, fun _ => rfl⟩ (h.reaches hcurrent hp) ?_
    fun module q hq => .inl (horigin module q hq)
  intro module q hq
  obtain hown | ⟨_, _, hbuilds⟩ := hq
  · refine (hkept module q hown).imp_right ?_
    rintro rfl
    exact .inl rfl
  · cases hbuilds

/-- A patch is given up, and its record lets go of it. -/
theorem detach
    (h : Underway x covered own held j)
    (hkept : ∀ module q, own module q → own' module q ∨ q = p)
    (horigin : ∀ module q, own' module q → own module q) :
    Underway x covered own' held (host.watched.detach p j) := by
  refine h.call (c := .detach p) rfl rfl ⟨rfl, fun _ => rfl⟩ trivial ?_
    fun module q hq => .inl (horigin module q hq)
  intro module q hq
  obtain hown | ⟨_, _, hbuilds⟩ := hq
  · refine (hkept module q hown).imp_right ?_
    rintro rfl
    exact .inr rfl
  · cases hbuilds

/-- A patch is built for a function of a module, or that fails. -/
theorem build
    (h : Underway x mapping.executableRegions own held j)
    (hconcerned : x.concerned = some module)
    (hcurrent : x.current module = some mapping)
    (offset size id allocator : Nat) :
    ∃ built j', host.watched.build ⟨mapping.addressOf offset, size, id⟩ allocator j = (built, j') ∧
      match built with
      | .built p =>
        Underway x mapping.executableRegions (fun m q => own m q ∨ (m = module ∧ q = p)) held j'
      | _ => Underway x mapping.executableRegions own held j' := by
  let site : Site := ⟨mapping.addressOf offset, size, id⟩
  have hallowed : ∀ patch, (Call.build site patch).Allowed x (x.calls j) :=
    fun _ => ⟨module, mapping, offset, hconcerned, hcurrent, rfl, h.guarded⟩
  have hfails : ∀ s, Underway x mapping.executableRegions own held (j.note (.build site none) s) :=
    fun s => h.idle_call rfl rfl ⟨rfl, fun _ => rfl⟩ (hallowed none) (by simp [Errand.Builds])
  cases hbuild : host.build site allocator j.state with
  | mk built s =>
      cases built with
      | refused =>
          exact ⟨.refused, _, by simp only [Host.watched, site] at hbuild ⊢; rw [hbuild], hfails s⟩
      | abandoned =>
          exact ⟨.abandoned, _, by simp only [Host.watched, site] at hbuild ⊢; rw [hbuild], hfails s⟩
      | built inner =>
          let p := j.patches.length
          let j' : Journal σ :=
            { j.note (.build site (some p)) s with patches := j.patches ++ [inner] }
          have hbuilds : ∀ m q, x.Builds (.build site (some p)) m q ↔ m = module ∧ q = p := by
            intro m q
            simp only [Errand.Builds, hconcerned, Option.some.injEq, Call.build.injEq, exists_eq_left']
            exact ⟨fun hq => ⟨hq.1.symm, hq.2.symm⟩, fun hq => ⟨hq.1.symm, hq.2.symm⟩⟩
          refine ⟨.built p, j', ?_, ?_⟩
          · simp only [Host.watched, site] at hbuild ⊢
            rw [hbuild]
          · have hcalls : j'.calls = j.calls ++ [.build site (some p)] := rfl
            refine h.call hcalls rfl ⟨rfl, fun _ => rfl⟩ (hallowed _) ?_ ?_
            · intro m q hq
              exact .inl (hq.imp_right (hbuilds m q).1)
            · intro m q hq
              exact hq.imp_right (hbuilds m q).2

end Patches

/-! ## Guards -/

section Guards

variable (host : Host σ)

/-- A region is made writable, or that is refused. -/
theorem protect
    {region : Memory.Region}
    (h : Underway x covered own held j)
    (hcurrent : x.current module = some mapping)
    (hregion : region ∈ mapping.executableRegions) :
    ∃ guard j', host.watched.protect region j = (guard, j') ∧
      match guard with
      | none => Underway x covered own held j'
      | some g => Underway x (covered ++ [region]) own (g :: held) j' := by
  obtain ⟨guard, j', hprotect, hcalls, hbalanced⟩ := h.balanced.protect host region
  have hallowed : (Call.protect region guard).Allowed x (x.calls j) :=
    ⟨module, mapping, hcurrent, hregion⟩
  have hbuilds : ∀ module p, ¬ x.Builds (.protect region guard) module p := by simp [Errand.Builds]
  refine ⟨guard, j', hprotect, ?_⟩
  cases guard with
  | none =>
      refine h.call_on_guards hcalls hbalanced ?_ hallowed hbuilds
      intro region' hregion'
      exact (h.covers region' hregion').imp fun g hg => ⟨hg.1, .inl hg.2⟩
  | some g =>
      refine h.call_on_guards hcalls hbalanced ?_ hallowed hbuilds
      intro region' hregion'
      obtain hbefore | hnew := List.mem_append.1 hregion'
      · obtain ⟨g', hg', htaken⟩ := h.covers region' hbefore
        exact ⟨g', List.mem_cons_of_mem g hg', .inl htaken⟩
      · rw [List.mem_singleton.1 hnew]
        exact ⟨g, List.mem_cons_self, .inr rfl⟩

/-- Guards are released one after the other. -/
theorem releaseAll
    (guards : List Nat)
    (h : Underway x covered own (guards ++ held) j) :
    Underway x [] own held (host.watched.releaseAll guards j) := by
  induction guards generalizing covered j with
  | nil =>
      exact h.uncovered
  | cons g rest ih =>
      obtain ⟨region, hcalls, hbalanced⟩ := h.balanced.release host
      have h1 : Underway x [] own (rest ++ held) (host.watched.release g j) :=
        h.call_on_guards hcalls hbalanced (by simp) trivial (by simp [Errand.Builds])
      exact ih h1

/-- Regions are made writable one after the other; if one is refused, nothing stays held. -/
theorem relaxFrom
    (hcurrent : x.current module = some mapping)
    (regions : List Memory.Region)
    (hregions : ∀ region ∈ regions, region ∈ mapping.executableRegions)
    (taken : List Nat)
    (h : Underway x covered own (taken ++ held) j) :
    ∃ guards j', host.watched.relaxFrom taken regions j = (guards, j') ∧
      match guards with
      | none => Underway x [] own held j'
      | some guards => Underway x (covered ++ regions) own (guards ++ held) j' := by
  induction regions generalizing covered taken j with
  | nil =>
      refine ⟨some taken, j, rfl, ?_⟩
      rw [List.append_nil]
      exact h
  | cons region rest ih =>
      obtain ⟨hregion, hrest⟩ := List.forall_mem_cons.1 hregions
      obtain ⟨guard, j1, hprotect, h1⟩ := h.protect host hcurrent hregion
      cases guard with
      | none =>
          refine ⟨none, host.watched.releaseAll taken j1, ?_, h1.releaseAll host taken⟩
          simp only [Host.relaxFrom, hprotect]
      | some g =>
          have hperm : (g :: (taken ++ held)).Perm ((taken ++ [g]) ++ held) := by
            rw [List.append_assoc]
            exact List.perm_middle.symm
          obtain ⟨guards, j', hrelax, h'⟩ := ih hrest (taken ++ [g]) (h1.guards hperm)
          refine ⟨guards, j', ?_, ?_⟩
          · simp only [Host.relaxFrom, hprotect, hrelax]
          · cases guards with
            | none =>
                exact h'
            | some guards =>
                rw [List.append_assoc] at h'
                exact h'

/-- The code of a current mapping is made writable, or nothing stays held. -/
theorem relax
    (h : Underway x [] own held j)
    (hcurrent : x.current module = some mapping) :
    ∃ guards j', host.watched.relax mapping j = (guards, j') ∧
      match guards with
      | none => Underway x [] own held j'
      | some guards => Underway x mapping.executableRegions own (guards ++ held) j' :=
  relaxFrom host hcurrent mapping.executableRegions (fun _ hregion => hregion) [] h

/-- A module is held in place, if that is possible. -/
theorem lock
    {g : Registry} {pin : Nat → Option Mapping}
    (h : Underway x [] own held j)
    (hpin : x.Pins pin g)
    (module : Nat) :
    ∃ l j', g.lock host.watched pin module j = (l, j') ∧
      x.Places module l ∧
      Underway x (codeOf l) own (guardsOf l ++ held) j' := by
  have hnone : ∀ {j1 : Journal σ}, Underway x [] own held j1 →
      g.lock host.watched pin module j = (none, j1) →
      ∃ l j', g.lock host.watched pin module j = (l, j') ∧
        x.Places module l ∧
        Underway x (codeOf l) own (guardsOf l ++ held) j' := by
    intro j1 h1 hrun
    refine ⟨none, j1, hrun, ?_, h1⟩
    intro k hk
    cases hk
  cases hknown : g.mappings.find? (·.module = module) with
  | none =>
      exact hnone h (by simp only [Registry.lock, hknown])
  | some known =>
      cases hpinned : pin known.mapping with
      | none =>
          exact hnone h (by simp only [Registry.lock, hknown, hpinned])
      | some mapping =>
          have hmodule : known.module = module := by
            simpa using List.find?_some hknown
          have hcurrent : x.current module = some mapping :=
            hmodule ▸ hpin known (List.mem_of_find?_eq_some hknown) mapping hpinned
          obtain ⟨guards, j1, hrelax, h1⟩ := h.relax host hcurrent
          cases guards with
          | none =>
              exact hnone h1 (by simp only [Registry.lock, hknown, hpinned, hrelax])
          | some guards =>
              refine ⟨some ⟨guards, mapping, known.allocator⟩, j1, ?_, ?_, h1⟩
              · simp only [Registry.lock, hknown, hpinned, hrelax]
              · rintro k ⟨⟩
                exact hcurrent

/-- What was held for the act is let go. -/
theorem unlock
    {l : Option Lock}
    (h : Underway x covered own (guardsOf l ++ held) j) :
    Underway x [] own held (Registry.unlock host.watched l j) := by
  cases l with
  | none => exact h.uncovered
  | some k => exact h.releaseAll host k.guards

end Guards

end Underway

end CallProfiler.Image
