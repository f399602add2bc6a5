import CallProfiler.Proofs.Image.Lives
import CallProfiler.Proofs.Image.Stations

/-!
# How patches come to their ends

A registry that listens to a tracker knows all mappings that are there.  So the patches of a mapping that
goes away are given up at once, and when the registry ends, each patch that is left is ended while its
code is writable, or given up since the code cannot be made writable.

**Main statements.**
* `Registry.Knows`: what a registry knows of a mapping; kept while other mappings come and go.
* `Registry.Loses`, `Registry.CannotReach`: why patches are given up.
* `Registry.Tends`: what holds of a registry that listens, its tracker and its patches.
* `Tends.start`, `Tends.load`, `Tends.unload`, `Tends.apply`, `Tends.revert`, `Tends.close`: what every
  act preserves, and which patches are given up in it.
* `Station.patches_live_once`: the lives of all patches in every run.
-/

namespace CallProfiler.Image

open Relation

variable {σ : Type}

/-! ## What a registry knows -/

/-- The registry knows a mapping, and no other one of its module. -/
structure Registry.Knows (g : Registry) (x : Tracked) : Prop where
  module : g.modules.lookup x.id = some x.module
  known : ∃ k ∈ g.mappings, k.module = x.module
  only : ∀ k ∈ g.mappings, k.module = x.module → k.mapping = x.id

namespace Registry.Knows

variable {g g' : Registry} {x : Tracked}

theorem of_tables
    (h : g.Knows x)
    (htables : g'.mappings = g.mappings ∧ g'.modules = g.modules) :
    g'.Knows x where
  module := by
    rw [htables.2]
    exact h.module
  known := by
    rw [htables.1]
    exact h.known
  only := by
    rw [htables.1]
    exact h.only

/-- Another mapping goes away. -/
theorem unmapped
    (h : g.Knows x)
    {id : Nat}
    (hother : x.id ≠ id)
    (host : Host σ) (s : σ) :
    (g.unmapped host id s).1.Knows x := by
  unfold Registry.unmapped
  split
  · exact h
  · refine ⟨?_, ?_, ?_⟩
    · rw [Rehearsal.lookup_filter_ne, if_neg hother]
      exact h.module
    · obtain ⟨k, hk, hmodule⟩ := h.known
      have hid := h.only k hk hmodule
      exact ⟨k, List.mem_filter.2 ⟨hk, by simp [hid, hother]⟩, hmodule⟩
    · exact fun k hk => h.only k (List.mem_filter.1 hk).1

end Registry.Knows

/-- A new mapping becomes known in place of the one before. -/
theorem Registry.mapped_tables
    (host : Host σ) (g : Registry) (module id : Nat) (mapping : Mapping) (s : σ) :
    ∃ allocator, (g.mapped host module id mapping s).2.1.mappings =
        g.mappings.filter (·.module ≠ module) ++ [⟨module, id, allocator⟩] ∧
      (g.mapped host module id mapping s).2.1.modules =
        g.modules.filter (·.1 ≠ id) ++ [(id, module)] := by
  refine ⟨(allocatorFor host mapping s).1, ?_⟩
  unfold Registry.mapped learn
  dsimp only
  split
  · split <;> exact ⟨rfl, rfl⟩
  · exact ⟨rfl, rfl⟩

/-- A registry without records has nothing to bring into memory. -/
theorem Registry.mapped_of_empty
    (host : Host σ) {g : Registry}
    (hempty : g.records = [])
    (module id : Nat) (mapping : Mapping) (s : σ) :
    (g.mapped host module id mapping s).1 = true ∧
      (g.mapped host module id mapping s).2.1.records = [] := by
  simp [Registry.mapped, learn, hempty]

theorem Registry.Knows.mapped
    {g : Registry} {x : Tracked} {module id : Nat}
    (h : g.Knows x)
    (hmodule : x.module ≠ module)
    (hid : x.id ≠ id)
    (host : Host σ) (mapping : Mapping) (s : σ) :
    (g.mapped host module id mapping s).2.1.Knows x := by
  obtain ⟨allocator, hmappings, hmodules⟩ := g.mapped_tables host module id mapping s
  refine ⟨?_, ?_, ?_⟩
  · rw [hmodules, lookup_filter_ne_append, if_neg hid]
    exact h.module
  · obtain ⟨k, hk, hsame⟩ := h.known
    rw [hmappings]
    have hkept : k ∈ g.mappings.filter (·.module ≠ module) :=
      List.mem_filter.2 ⟨hk, by simpa [hsame] using hmodule⟩
    exact ⟨k, List.mem_append_left _ hkept, hsame⟩
  · intro k hk hsame
    rw [hmappings] at hk
    obtain hold | hnew := List.mem_append.1 hk
    · exact h.only k (List.mem_filter.1 hold).1 hsame
    · rw [List.mem_singleton.1 hnew] at hsame
      exact absurd hsame.symm hmodule

/-- What was mapped last is known. -/
theorem Registry.knows_mapped
    (host : Host σ) (g : Registry) (module id : Nat) (mapping : Mapping) (s : σ) :
    (g.mapped host module id mapping s).2.1.Knows ⟨id, module, mapping⟩ := by
  obtain ⟨allocator, hmappings, hmodules⟩ := g.mapped_tables host module id mapping s
  refine ⟨?_, ?_, ?_⟩
  · rw [hmodules, lookup_filter_ne_append, if_pos rfl]
  · rw [hmappings]
    exact ⟨_, List.mem_append_right _ List.mem_cons_self, rfl⟩
  · intro k hk hsame
    rw [hmappings] at hk
    obtain hold | hnew := List.mem_append.1 hk
    · exact absurd hsame (by simpa using (List.mem_filter.1 hold).2)
    · rw [List.mem_singleton.1 hnew]

/-- A lock holds the current mapping of its module. -/
theorem Registry.lock_current
    {g : Registry} {t : Tracker} {module : Nat} {l : Lock} {s : σ} (host : Host σ)
    (hg : g.InStep t)
    (ht : t.Orderly)
    (hlock : (g.lock host t.mapping? module s).1 = some l) :
    t.current module = some l.mapping := by
  unfold lock at hlock
  split at hlock
  · cases hlock
  · next known hknown =>
      split at hlock
      · cases hlock
      · next mapping hpin =>
          split at hlock
          · cases hlock
          · cases hlock
            have hmodule : known.module = module := by
              simpa using List.find?_some hknown
            obtain ⟨module', hmem⟩ := Tracker.mem_of_mapping? hpin
            have hsame : module' = known.module :=
              (hg known (List.mem_of_find?_eq_some hknown)).2 _ hmem rfl
            rw [← hmodule, ← hsame]
            exact ht.current_of_mem hmem

/-- A module that is there cannot be locked only if its code cannot be made writable. -/
theorem Registry.lock_refused
    {g : Registry} {t : Tracker} {x : Tracked} {j j' : Journal σ} (host : Host σ)
    (hknows : g.Knows x)
    (ht : t.Orderly)
    (hx : x ∈ t.mappings)
    (hlock : g.lock host.watched t.mapping? x.module j = (none, j')) :
    ∃ calls, j'.calls = j.calls ++ calls ∧ Denied calls x.mapping := by
  obtain ⟨k, hk, hmodule⟩ := hknows.known
  unfold lock at hlock
  cases hfind : g.mappings.find? (·.module = x.module) with
  | none =>
      have hnone := List.find?_eq_none.1 hfind k hk
      simp [hmodule] at hnone
  | some known =>
      have hsame : known.module = x.module := by
        simpa using List.find?_some hfind
      have hid := hknows.only known (List.mem_of_find?_eq_some hfind) hsame
      simp only [hfind, hid, ht.mapping?_of_mem hx] at hlock
      cases hrelax : host.watched.relax x.mapping j with
      | mk guards j1 =>
          rw [hrelax] at hlock
          cases guards with
          | none =>
              cases hlock
              exact host.relax_refused hrelax
          | some guards => cases hlock

theorem Registry.dropAll_prepares
    (host : Host σ) (known : List KnownMapping) (s : σ) :
    ReflTransGen host.Prepares s (known.foldl (fun s k => dropKnown host (some k) s) s) := by
  induction known generalizing s with
  | nil => exact .refl
  | cons k rest ih => exact (dropKnown_prepares host (some k) s).trans (ih _)

/-- Giving up the patches of a module is what ends them where code is not writable. -/
theorem detachRecords_eq
    (host : Host σ) (module : Nat) (records : List Record) (s : σ) :
    Registry.detachRecords host module records s =
      Registry.closeRecords host false module records s := by
  induction records generalizing s with
  | nil => rfl
  | cons r rest ih =>
      simp only [Registry.detachRecords, Registry.closeRecords, ih, Bool.false_eq_true, if_false]

/-- Where code is not writable, patches are given up, and nothing else is done. -/
theorem closeRecords_unlocked
    (host : Host σ) (module : Nat) (records : List Record) (j : Journal σ) :
    ∃ calls, (Registry.closeRecords host.watched false module records j).2.calls = j.calls ++ calls ∧
      ∀ c ∈ calls, ∃ p, c = .detach p := by
  induction records generalizing j with
  | nil => exact ⟨[], (List.append_nil _).symm, by simp⟩
  | cons r rest ih =>
      unfold Registry.closeRecords
      split
      · cases hbacking : r.backing with
        | instantiated p =>
            obtain ⟨calls, hcalls, hgiven⟩ := ih (host.watched.detach p j)
            simp only [Record.takePatch, hbacking, Bool.false_eq_true, if_false]
            refine ⟨.detach p :: calls, hcalls.trans (List.append_assoc j.calls [.detach p] calls), ?_⟩
            exact List.forall_mem_cons.2 ⟨⟨p, rfl⟩, hgiven⟩
        | _ =>
            simp only [Record.takePatch, hbacking]
            exact ih j
      · exact ih j

theorem Registry.followAll_unmapped
    (host : Host σ) (id : Nat) (rest : List Event) (g : Registry) (s : σ) :
    followAll host (.unmapped id :: rest) g s =
      followAll host rest (g.unmapped host id s).1 (g.unmapped host id s).2 :=
  rfl

theorem Registry.followAll_singleton
    (host : Host σ) (e : Event) (g : Registry) (s : σ) :
    (followAll host [e] g s).2 = (g.follow host e s).2 := by
  unfold followAll
  split
  next hfollow =>
    rw [hfollow]
    rfl
  next hfollow => rw [hfollow]

/-! ## Why patches are given up -/

/-- The mapping of the patch is reported to go away. -/
def Registry.Loses (g : Registry) (t : Tracker) (events : List Event) (p : Nat) : Prop :=
  ∃ x ∈ t.mappings, Holds g.records x.module p ∧ .unmapped x.id ∈ events

/-- The code of the patch could not be made writable. -/
def Registry.CannotReach (g : Registry) (t : Tracker) (earlier : List Call) (p : Nat) : Prop :=
  ∃ x ∈ t.mappings, Holds g.records x.module p ∧ Denied earlier x.mapping

theorem Registry.CannotReach.append_left
    {g : Registry} {t : Tracker} {earlier : List Call} {p : Nat}
    (h : g.CannotReach t earlier p)
    (before : List Call) :
    g.CannotReach t (before ++ earlier) p := by
  obtain ⟨x, hx, hp, hdenied⟩ := h
  exact ⟨x, hx, hp, hdenied.append_left before⟩

/-! ## A registry at its tracker -/

/-- A registry that listens to a tracker knows the mappings that are there, and its patches live. -/
structure Registry.Tends (g : Registry) (t : Tracker) (j : Journal σ) : Prop where
  lives : Lives t.current g.records j
  order : InOrder g.records
  knows : ∀ x ∈ t.mappings, g.Knows x

namespace Registry.Tends

variable {g : Registry} {t t' : Tracker} {j j' : Journal σ} {module id : Nat} {mapping : Mapping}
  (host : Host σ)

/-- Who listens does not matter. -/
theorem of_mappings
    (h : g.Tends t j)
    (hmappings : t'.mappings = t.mappings) :
    g.Tends t' j where
  lives := by
    rw [show t'.current = t.current from funext fun _ => by rw [Tracker.current, hmappings]; rfl]
    exact h.lives
  order := h.order
  knows := hmappings ▸ h.knows

/-- Something is done to current patches, while no mapping comes or goes. -/
theorem course
    {x : Scope} {b : Registry × Journal σ}
    (h : g.Tends t j)
    (hcourse : Course host.watched x (g, j) b)
    (hcurrent : ∀ mapping, x.mapping = some mapping → t.current x.module = some mapping)
    (hlearns : x.learns = false) :
    b.1.Tends t b.2 where
  lives := h.lives.course hcurrent hcourse
  order := hcourse.inOrder h.order
  knows := fun x hx => (h.knows x hx).of_tables (hcourse.tables hlearns)

/-- A batch of requests. -/
theorem apply
    (h : g.Tends t j)
    (ht : t.Orderly)
    (hg : g.InStep t)
    (module : Nat) (targets : List Target) :
    let after := (g.apply host.watched t.mapping? module targets j).2
    after.1.Tends t after.2 ∧ GivesUpNothing j after.2 := by
  let x : Scope := ⟨module, t.current module, false, false, false⟩
  have hcourse : Course host.watched x (g, j) (g.apply host.watched t.mapping? module targets j).2 :=
    Course.apply host.watched rfl (fun k hk _ => Registry.lock_current host.watched hg ht hk) h.order
      targets
  exact ⟨h.course host hcourse (fun _ hplace => hplace) rfl, hcourse.gives_up_nothing rfl⟩

/-- A batch of withdrawals. -/
theorem revert
    (h : g.Tends t j)
    (module : Nat) (offsets : List Nat) :
    let after := (g.revert host.watched t.mapping? module offsets j).2
    after.1.Tends t after.2 ∧ GivesUpNothing j after.2 := by
  let x : Scope := ⟨module, none, true, false, false⟩
  have hcourse : Course host.watched x (g, j) (g.revert host.watched t.mapping? module offsets j).2 :=
    Course.revert host.watched rfl rfl h.order t.mapping? offsets j
  exact ⟨h.course host hcourse (by simp [x]) rfl, hcourse.gives_up_nothing rfl⟩

/-- A module is mapped that was not mapped before. -/
theorem mapped
    (h : g.Tends t j)
    (ht' : t'.Orderly)
    (hmappings : t'.mappings = t.mappings ++ [⟨id, module, mapping⟩]) :
    let after := (g.mapped host.watched module id mapping j).2
    after.1.Tends t' after.2 ∧ GivesUpNothing j after.2 := by
  intro after
  have hnew : ⟨id, module, mapping⟩ ∈ t'.mappings := by
    rw [hmappings]
    exact List.mem_append_right _ List.mem_cons_self
  have hold : ∀ x ∈ t.mappings, x ∈ t'.mappings := by
    intro x hx
    rw [hmappings]
    exact List.mem_append_left _ hx
  -- the patches there are belong to other modules, which stay where they are
  have hmoved : Lives t'.current g.records j := by
    refine h.lives.moved fun module' p mapping' _ hplace => ?_
    obtain ⟨id', hx⟩ := Tracker.mem_of_current hplace
    exact ht'.current_of_mem (hold _ hx)
  have hcourse : Course host.watched ⟨module, some mapping, false, false, true⟩ (g, j) after :=
    Course.mapped host.watched rfl (fun _ => rfl) rfl id g
  refine ⟨⟨hmoved.course ?_ hcourse, hcourse.inOrder h.order, ?_⟩, hcourse.gives_up_nothing rfl⟩
  · rintro _ ⟨⟩
    exact ht'.current_of_mem hnew
  · intro x hx
    rw [hmappings, List.mem_append, List.mem_singleton] at hx
    obtain hbefore | rfl := hx
    · have hids := ht'.ids
      have hmodules := ht'.modules
      rw [hmappings, List.map_append, List.nodup_append] at hids hmodules
      refine (h.knows x hbefore).mapped ?_ ?_ host.watched mapping j
      · exact hmodules.2.2 _ (List.mem_map_of_mem hbefore) _ List.mem_cons_self
      · exact hids.2.2 _ (List.mem_map_of_mem hbefore) _ List.mem_cons_self
    · exact g.knows_mapped host.watched module id mapping j

/-- A mapping goes away. -/
theorem unmapped
    {x : Tracked}
    (h : g.Tends t j)
    (ht : t.Orderly)
    (hx : x ∈ t.mappings) :
    let after := g.unmapped host.watched x.id j
    after.1.Tends (t.unload x.id).2.2 after.2 ∧ (∀ p, ¬ Holds after.1.records x.module p) ∧
      GivesUp (fun _ p => Holds g.records x.module p) j after.2 := by
  intro after
  have hlookup := (h.knows x hx).module
  have hcourse : Course host.watched ⟨x.module, none, false, true, true⟩ (g, j) after :=
    Course.unmapped host.watched rfl rfl rfl hlookup j
  have hleft : ∀ p, ¬ Holds after.1.records x.module p := by
    intro p hp
    simp only [after, Registry.unmapped, hlookup, detachRecords_eq] at hp
    exact (holds_of_holds_closeRecords host.watched false x.module g.records j hp).1 rfl
  refine ⟨⟨?_, hcourse.inOrder h.order, ?_⟩, hleft, ?_⟩
  · refine (h.lives.course (by simp) hcourse).moved fun module p mapping hp hplace => ?_
    obtain ⟨id, hy⟩ := Tracker.mem_of_current hplace
    refine (ht.unload x.id).current_of_mem (Tracker.mem_unload.2 ⟨hy, ?_⟩)
    intro hid
    cases List.inj_on_of_nodup_map ht.ids hy hx hid
    exact hleft p hp
  · intro y hy
    obtain ⟨hy, hid⟩ := Tracker.mem_unload.1 hy
    exact (h.knows y hy).unmapped hid host.watched j
  · obtain ⟨calls, hcalls, hgiven⟩ := hcourse.detached
    exact .of_mem hcalls fun p hp _ => (hgiven p hp).2 rfl

/-- A registry that has no records follows all mappings that are there. -/
theorem start
    {todo : List Tracked}
    (h : g.Tends t j)
    (hempty : g.records = [])
    (ht' : t'.Orderly)
    (hmappings : t'.mappings = t.mappings ++ todo) :
    let events := todo.map fun x => .mapped x.module x.id x.mapping
    let after := (Registry.followAll host.watched events g j).2
    after.1.Tends t' after.2 ∧ GivesUpNothing j after.2 := by
  induction todo generalizing g t j with
  | nil =>
      have hsame : t'.mappings = t.mappings := by simpa using hmappings
      exact ⟨h.of_mappings hsame, [], (List.append_nil _).symm, by simp⟩
  | cons x rest ih =>
      let t1 : Tracker := { t' with mappings := t.mappings ++ [x] }
      have hrest : t'.mappings = t1.mappings ++ rest := by simpa [t1] using hmappings
      have ht1 : t1.Orderly := ht'.sublist (hrest ▸ List.sublist_append_left _ _)
      have hnext : t1.mappings = t.mappings ++ [⟨x.id, x.module, x.mapping⟩] := rfl
      obtain ⟨hfirst, hgiven⟩ := h.mapped host ht1 hnext
      obtain ⟨hfinished, hempty1⟩ :=
        Registry.mapped_of_empty host.watched hempty x.module x.id x.mapping j
      have hmapped : g.mapped host.watched x.module x.id x.mapping j =
          (true, (g.mapped host.watched x.module x.id x.mapping j).2) :=
        Prod.ext hfinished rfl
      obtain ⟨hlast, hgiven'⟩ := ih hfirst hempty1 hrest
      simp only [List.map_cons, Registry.followAll, Registry.follow]
      rw [hmapped]
      exact ⟨hlast, hgiven.trans hgiven' fun _ _ _ hnot => hnot⟩

/-- A module is loaded: its old mapping goes away first. -/
theorem load
    (h : g.Tends t j)
    (ht : t.Orderly)
    (module : Nat) (mapping : Mapping) :
    let events := (t.load module mapping).2.1
    let after := (Registry.followAll host.watched events g j).2
    after.1.Tends (t.load module mapping).2.2 after.2 ∧
      GivesUp (fun _ p => g.Loses t events p) j after.2 := by
  intro events after
  have ht' := ht.load module mapping
  cases hfind : t.mappings.find? (·.module = module) with
  | none =>
      obtain ⟨hevents, hmappings⟩ := Tracker.load_of_none hfind mapping
      have hafter : after = (g.mapped host.watched module (t.lastMapping + 1) mapping j).2 := by
        simp only [after, events, hevents, Registry.followAll_singleton, Registry.follow]
      obtain ⟨htends, hnothing⟩ := h.mapped host ht' hmappings
      rw [hafter]
      exact ⟨htends, .of_nothing hnothing⟩
  | some x =>
      obtain ⟨hevents, hmappings⟩ := ht.load_of_some hfind mapping
      have hafter : after = ((g.unmapped host.watched x.id j).1.mapped host.watched module
          (t.lastMapping + 1) mapping (g.unmapped host.watched x.id j).2).2 := by
        simp only [after, events, hevents, Registry.followAll_unmapped, Registry.followAll_singleton,
          Registry.follow]
      have hx : x ∈ t.mappings := List.mem_of_find?_eq_some hfind
      have hreported : .unmapped x.id ∈ events := by
        simp only [events, hevents, List.mem_cons_self]
      obtain ⟨h1, _, hgiven⟩ := h.unmapped host ht hx
      obtain ⟨htends, hnothing⟩ := h1.mapped host ht' hmappings
      rw [hafter]
      exact ⟨htends, GivesUp.trans (hgiven.mono fun _ p hp => ⟨x, hx, hp, hreported⟩)
        (.of_nothing hnothing) fun _ _ _ hwhy => hwhy⟩

/-- A mapping is unloaded, if there is one with the number. -/
theorem unload
    (h : g.Tends t j)
    (ht : t.Orderly)
    (id : Nat) :
    let events := (t.unload id).2.1
    let after := (Registry.followAll host.watched events g j).2
    after.1.Tends (t.unload id).2.2 after.2 ∧
      GivesUp (fun _ p => g.Loses t events p) j after.2 := by
  intro events after
  by_cases hknown : t.mappings.any (·.id = id) = true
  · obtain ⟨x, hx, hid⟩ := List.any_eq_true.1 hknown
    cases of_decide_eq_true hid
    have hevents : events = [.unmapped x.id] := by
      simp only [events, Tracker.unload, if_pos hknown]
    have hafter : after = g.unmapped host.watched x.id j := by
      simp only [after, hevents, Registry.followAll_singleton, Registry.follow]
    obtain ⟨htends, _, hgiven⟩ := h.unmapped host ht hx
    rw [hafter]
    refine ⟨htends, hgiven.mono fun _ p hp => ⟨x, hx, hp, ?_⟩⟩
    rw [hevents]
    exact List.mem_cons_self
  · have hnothing : t.unload id = (false, [], t) := if_neg hknown
    have hafter : after = (g, j) := by
      simp only [after, events, hnothing, Registry.followAll]
    rw [hafter, hnothing]
    exact ⟨h, [], (List.append_nil _).symm, by simp⟩

/-! ### The end -/

/-- A module with a patch is there. -/
theorem there
    {p : Nat}
    (h : g.Tends t j)
    (hp : Holds g.records module p) :
    ∃ x ∈ t.mappings, x.module = module := by
  obtain ⟨r, hr, rfl, hheld⟩ := hp
  obtain ⟨mapping, hplace, _⟩ := h.lives.sited r hr p hheld
  obtain ⟨id, hx⟩ := Tracker.mem_of_current hplace
  exact ⟨_, hx, rfl⟩

/-- If a module cannot be locked, its patches are given up since code could not be made writable. -/
theorem gives_up_unlocked
    (h : g.Tends t j)
    (ht : t.Orderly)
    {j1 : Journal σ}
    (hlock : g.lock host.watched t.mapping? module j = (none, j1)) :
    GivesUp (g.CannotReach t) j (Registry.closeRecords host.watched false module g.records j1).2 := by
  have hprepares := Registry.lock_prepares host.watched t.mapping? g module j
  rw [hlock] at hprepares
  obtain ⟨_, before, hbefore, hquiet⟩ := host.calls_of_prepares hprepares
  obtain ⟨gone, hgone, hdetaches⟩ := closeRecords_unlocked host module g.records j1
  have hheld : ∀ p, .detach p ∈ gone → Holds g.records module p := by
    intro p hp
    have hcourse : Course host.watched ⟨module, none, false, true, false⟩ (g, j1) _ :=
      Course.closeRecords false rfl (by simp) (fun _ => rfl) g [] g.records j1
    obtain ⟨calls, hcalls, hgiven⟩ := hcourse.detached
    rw [← List.append_cancel_left (hgone.symm.trans hcalls)] at hgiven
    exact (hgiven p hp).2 rfl
  -- the refusal is among the calls of the lock, and only patches are given up after it
  refine ⟨before ++ gone, by rw [hgone, hbefore, List.append_assoc], ?_⟩
  intro earlier p later hsplit
  obtain ⟨later', hfirst⟩ | ⟨earlier', rfl, hsecond⟩ := split_of_append hsplit
  · have hnot := hquiet (.detach p) (hfirst ▸ List.mem_append_right _ List.mem_cons_self)
    simp [Call.onPatches] at hnot
  · have hp := hheld p (hsecond ▸ List.mem_append_right _ List.mem_cons_self)
    obtain ⟨x, hx, rfl⟩ := h.there hp
    obtain ⟨calls, hcalls, hdenied⟩ := Registry.lock_refused host (h.knows x hx) ht hx hlock
    rw [List.append_cancel_left (hcalls.symm.trans hbefore)] at hdenied
    refine ⟨x, hx, hp, hdenied.append_right fun region guard hmem => ?_⟩
    obtain ⟨q, heq⟩ := hdetaches _ (hsecond ▸ List.mem_append_left _ hmem)
    cases heq

/-- The patches of a module are ended, or given up if the code cannot be made writable. -/
theorem closeModule
    (h : g.Tends t j)
    (ht : t.Orderly)
    (module : Nat) :
    let after := g.closeModule host.watched t.mapping? module j
    after.1.Tends t after.2 ∧
      (∀ m p, Holds after.1.records m p → m ≠ module ∧ Holds g.records m p) ∧
      GivesUp (g.CannotReach t) j after.2 := by
  intro after
  let locked := (g.lock host.watched t.mapping? module j).1.isSome
  have hcourse : Course host.watched ⟨module, none, locked, !locked, false⟩ (g, j) after :=
    Course.closeModule host.watched rfl id fun hnone => by simp only [locked, hnone, Bool.not_false]
  refine ⟨h.course host hcourse (by simp) rfl, ?_, ?_⟩
  · intro m p hp
    exact holds_of_holds_closeRecords host.watched locked module g.records _ hp
  · cases hlock : g.lock host.watched t.mapping? module j with
    | mk l j1 =>
        cases l with
        | some k =>
            have hnothing := hcourse.gives_up_nothing (by simp [locked, hlock])
            exact .of_nothing hnothing
        | none =>
            have hafter : after.2 = (Registry.closeRecords host.watched false module g.records j1).2 := by
              simp only [after, Registry.closeModule, hlock, Option.isSome_none, Registry.unlock]
            rw [hafter]
            exact h.gives_up_unlocked host ht hlock

/-- The patches of modules are ended, module by module. -/
theorem closeModules
    (h : g.Tends t j)
    (ht : t.Orderly)
    (modules : List Nat) :
    let after := modules.foldl
      (fun (g, s) module => Registry.closeModule host.watched t.mapping? module g s) (g, j)
    after.1.Tends t after.2 ∧
      (∀ m p, Holds after.1.records m p → m ∉ modules ∧ Holds g.records m p) ∧
      GivesUp (g.CannotReach t) j after.2 := by
  induction modules generalizing g j with
  | nil =>
      exact ⟨h, fun _ _ hp => ⟨List.not_mem_nil, hp⟩, [], (List.append_nil _).symm, by simp⟩
  | cons module rest ih =>
      obtain ⟨h1, hleft, hgiven⟩ := h.closeModule host ht module
      obtain ⟨h', hleft', hgiven'⟩ := ih h1
      refine ⟨h', ?_, hgiven.trans (hgiven'.mono ?_) fun before _ _ hwhy => hwhy.append_left before⟩
      · intro m p hp
        obtain ⟨hnot, hp1⟩ := hleft' m p hp
        obtain ⟨hne, hp0⟩ := hleft m p hp1
        exact ⟨List.not_mem_cons_of_ne_of_not_mem hne hnot, hp0⟩
      · rintro earlier p ⟨x, hx, hp, hdenied⟩
        exact ⟨x, hx, (hleft x.module p hp).2, hdenied⟩

/-- **The registry ends**, and no patch is left. -/
theorem close
    (h : g.Tends t j)
    (ht : t.Orderly) :
    Lives t.current [] (g.close host.watched t.mapping? j) ∧
      GivesUp (g.CannotReach t) j (g.close host.watched t.mapping? j) := by
  obtain ⟨h1, hleft, hgiven⟩ := h.closeModules host ht g.patchedModules
  have hdropped := Registry.dropAll_prepares host.watched
  unfold Registry.close
  generalize g.patchedModules.foldl _ (g, j) = closed at h1 hleft hgiven ⊢
  obtain ⟨h', hnothing⟩ := h1.lives.prepares (hdropped closed.1.mappings closed.2)
  refine ⟨h'.forgotten fun m p hp => ?_, hgiven.trans (.of_nothing hnothing) ?_⟩
  · obtain ⟨hnot, hp0⟩ := hleft m p hp
    exact hnot (mem_patchedModules hp0)
  · exact fun before _ _ hwhy => hwhy.append_left before

end Registry.Tends

/-! ## Stations -/

/-- What an act reports of modules that come and go. -/
def Act.events (t : Tracker) : Act → List Event
  | .deed (.move (.load module mapping)) => (t.load module mapping).2.1
  | .deed (.move (.unload id)) => (t.unload id).2.1
  | _ => []

/-- In an act a patch may be given up if the mapping of its module is reported to go away, or if the
registry ends and the latest attempt to make the code writable was refused. -/
def Act.MayDetach (act : Act) (t : Tracker) (own : Nat → Nat → Prop) (earlier : List Call) (p : Nat) :
    Prop :=
  ∃ x ∈ t.mappings, own x.module p ∧
    (.unmapped x.id ∈ act.events t ∨ (act = .close ∧ Denied earlier x.mapping))

namespace Station

variable {crew : Crew σ} {name : String} {st : Station} {j : Journal σ}

/-- The records of all registries. -/
def records (st : Station) : List Record := st.fleet.members.flatMap (·.registry.records)

/-- Who listens at a station tends to its patches. -/
structure Tends (st : Station) (j : Journal σ) : Prop where
  lives : Lives st.current st.records j
  order : InOrder st.records
  knows : ∀ m ∈ st.fleet.members, ∀ x ∈ st.fleet.tracker.mappings, m.registry.Knows x

theorem tends_nobody
    {t : Tracker} {held : List Lock} :
    Tends ⟨⟨t, [], []⟩, held⟩ j ↔ Lives t.current [] j :=
  ⟨fun h => h.lives, fun h => ⟨h, List.Pairwise.nil, by simp⟩⟩

theorem tends_single
    {t : Tracker} {name : String} {listener : Nat} {g : Registry} {held : List Lock} :
    Tends ⟨Fleet.single t name listener g, held⟩ j ↔ g.Tends t j := by
  have hrecords : records ⟨Fleet.single t name listener g, held⟩ = g.records := by
    simp [records, Fleet.single]
  constructor
  · intro h
    exact ⟨hrecords ▸ h.lives, hrecords ▸ h.order, h.knows _ List.mem_cons_self⟩
  · intro h
    refine ⟨hrecords.symm ▸ h.lives, hrecords.symm ▸ h.order, ?_⟩
    exact List.forall_mem_singleton.2 h.knows

/-- Nothing happens to patches. -/
theorem Tends.prepares
    {host : Host σ} {j' : Journal σ}
    (h : st.Tends j)
    (hprepares : ReflTransGen host.watched.Prepares j j')
    (held : List Lock) :
    Tends ⟨st.fleet, held⟩ j' ∧ GivesUpNothing j j' := by
  obtain ⟨hlives, hnothing⟩ := h.lives.prepares hprepares
  exact ⟨⟨hlives, h.order, h.knows⟩, hnothing⟩

/-- What an act comes to: who listens still tends to the patches, patches are given up for reasons, and
after the end there are no records. -/
structure Tends.After (act : Act) (st st' : Station) (j j' : Journal σ) : Prop where
  tends : st'.Tends j'
  gives_up : GivesUp (act.MayDetach st.fleet.tracker st.Owns) j j'
  ended : act = .close → st'.records = []

namespace Tends

variable {t : Tracker} {held : List Lock} {listener : Nat} {g : Registry} {act : Act}

/-- Nothing is done, except that modules come and go unheard. -/
theorem idle
    (h : Tends ⟨⟨t, [], []⟩, held⟩ j)
    (t' : Tracker) :
    After act ⟨⟨t, [], []⟩, held⟩ ⟨⟨t', [], []⟩, held⟩ j j where
  tends := tends_nobody.2 ((tends_nobody.1 h).moved fun m p mapping hp => by simp [Holds] at hp)
  gives_up := ⟨[], (List.append_nil _).symm, by simp⟩
  ended := fun _ => rfl

/-- A registry starts to listen. -/
theorem start
    (crew : Crew σ) (name : String)
    (h : Tends ⟨⟨t, [], []⟩, held⟩ j)
    (ht : t.Orderly) :
    let after := perform crew.watched name ⟨⟨t, [], []⟩, held⟩ j .start
    After .start ⟨⟨t, [], []⟩, held⟩ after.1 j after.2 := by
  intro after
  have hnew : ({} : Registry).Tends {} j :=
    ⟨(tends_nobody.1 h).moved fun m p mapping hp => by simp [Holds] at hp, List.Pairwise.nil, by simp⟩
  have ht' : t.subscribe.2.2.Orderly := ht.of_mappings rfl rfl
  obtain ⟨htends, hnothing⟩ := hnew.start (crew.host name) rfl ht' rfl
  have hafter : after = (⟨(Fleet.create crew.watched name false ⟨t, [], []⟩ j).1, held⟩,
      (Fleet.create crew.watched name false ⟨t, [], []⟩ j).2) := rfl
  rw [hafter, Fleet.create_single]
  exact ⟨tends_single.2 htends, .of_nothing hnothing, by simp⟩

/-- Something is done while the registry listens. -/
theorem deed
    (crew : Crew σ)
    (h : Tends ⟨Fleet.single t name listener g, held⟩ j)
    (ht : t.Orderly)
    (hg : g.InStep t)
    (d : Deed) :
    let after := perform crew.watched name ⟨Fleet.single t name listener g, held⟩ j (.deed d)
    After (.deed d) ⟨Fleet.single t name listener g, held⟩ after.1 j after.2 := by
  have htends := tends_single.1 h
  have hreported : ∀ earlier p, g.Loses t ((Act.deed d).events t) p →
      (Act.deed d).MayDetach t (Owns ⟨Fleet.single t name listener g, held⟩) earlier p := by
    rintro earlier p ⟨x, hx, hp, hevent⟩
    rw [owns_single]
    exact ⟨x, hx, hp, .inl hevent⟩
  cases d with
  | move movement =>
      cases movement with
      | load module mapping =>
          obtain ⟨hload, hgiven⟩ := htends.load (crew.host name) ht module mapping
          simp only [perform, Fleet.perform, Fleet.move, Fleet.load_single]
          exact ⟨tends_single.2 hload, hgiven.mono hreported, by simp⟩
      | unload id =>
          obtain ⟨hunload, hgiven⟩ := htends.unload (crew.host name) ht id
          simp only [perform, Fleet.perform, Fleet.move, Fleet.unload_single]
          exact ⟨tends_single.2 hunload, hgiven.mono hreported, by simp⟩
  | apply module targets =>
      obtain ⟨happly, hnothing⟩ := htends.apply (crew.host name) ht hg module targets
      simp only [perform, Fleet.perform, Fleet.apply_single]
      exact ⟨tends_single.2 happly, .of_nothing hnothing, by simp⟩
  | revert module offsets =>
      obtain ⟨hrevert, hnothing⟩ := htends.revert (crew.host name) module offsets
      simp only [perform, Fleet.perform, Fleet.revert_single]
      exact ⟨tends_single.2 hrevert, .of_nothing hnothing, by simp⟩

/-- The registry ends. -/
theorem close
    (crew : Crew σ)
    (h : Tends ⟨Fleet.single t name listener g, held⟩ j)
    (ht : t.Orderly) :
    let after := perform crew.watched name ⟨Fleet.single t name listener g, held⟩ j .close
    After .close ⟨Fleet.single t name listener g, held⟩ after.1 j after.2 := by
  intro after
  obtain ⟨hclose, hgiven⟩ := (tends_single.1 h).close (crew.host name) ht
  have hafter : after = (⟨⟨t.unsubscribe listener, [], []⟩, held⟩,
      g.close (crew.host name).watched t.mapping? j) := by
    simp only [after, perform, Fleet.drop_single, Crew.watched]
  rw [hafter]
  refine ⟨tends_nobody.2 hclose, hgiven.mono ?_, fun _ => rfl⟩
  rintro earlier p ⟨x, hx, hp, hdenied⟩
  rw [owns_single]
  exact ⟨x, hx, hp, .inr ⟨rfl, hdenied⟩⟩

/-- **What an act preserves, and what comes of patches in it.** -/
theorem perform
    (crew : Crew σ)
    (h : st.Tends j)
    (hsound : Sound name st j)
    (act : Act) :
    let after := st.perform crew.watched name j act
    After act st after.1 j after.2 := by
  -- most acts but the deeds leave patches alone, and some locks may be held afterwards
  have hstays : ∀ {j' : Journal σ} (held : List Lock), act ≠ .close →
      ReflTransGen (crew.host name).watched.Prepares j j' → After act st ⟨st.fleet, held⟩ j j' := by
    intro j' held hopen hprepares
    obtain ⟨htends, hnothing⟩ := h.prepares hprepares held
    exact ⟨htends, .of_nothing hnothing, fun hclose => absurd hclose hopen⟩
  obtain ⟨fleet, held⟩ := st
  obtain ⟨t, ht, hfleet⟩ := hsound.fleet
  dsimp only at hfleet
  obtain rfl | ⟨listener, g, rfl, hg⟩ := hfleet
  · cases act with
    | start => exact start crew name h ht
    | deed d =>
        cases d with
        | move movement =>
            cases movement with
            | load module mapping =>
                simp only [Station.perform, Fleet.perform, Fleet.move, Fleet.load, Fleet.tell_nobody]
                exact h.idle _
            | unload id =>
                simp only [Station.perform, Fleet.perform, Fleet.move, Fleet.unload, Fleet.tell_nobody]
                exact h.idle _
        | apply module targets => exact h.idle t
        | revert module offsets => exact h.idle t
    | lock module => exact hstays _ (by simp) .refl
    | release index => exact hstays _ (by simp) (Registry.unlock_prepares _ _ j)
    | close => exact h.idle t
  · cases act with
    | start =>
        simp only [Station.perform, Fleet.member?_single, Option.isSome_some, if_true]
        exact hstays held (by simp) .refl
    | deed d => exact deed crew h ht hg d
    | lock module =>
        simp only [Station.perform, Fleet.lock, Fleet.member?_single]
        exact hstays _ (by simp) (Registry.lock_prepares _ _ g module j)
    | release index => exact hstays _ (by simp) (Registry.unlock_prepares _ _ j)
    | close => exact close crew h ht

/-- Acts one after the other. -/
theorem performAll
    (crew : Crew σ) (acts : List Act)
    (h : st.Tends j)
    (hsound : Sound name st j) :
    let after := acts.foldl (fun (st, s) act => st.perform crew.watched name s act) (st, j)
    after.1.Tends after.2 := by
  induction acts generalizing st j with
  | nil => exact h
  | cons act rest ih =>
      obtain ⟨st1, j1, hperform, hconducted⟩ := hsound.perform crew act
      have hfirst := (h.perform crew hsound act).tends
      rw [hperform] at hfirst
      rw [List.foldl_cons]
      simp only [hperform]
      exact ih hfirst hconducted.sound

/-- What holds after every run. -/
theorem run
    (crew : Crew σ) (name : String) (acts : List Act) (s : σ) :
    (run crew.watched name acts { state := s }).1.Tends (run crew.watched name acts { state := s }).2 :=
  performAll crew acts (tends_nobody.2 (Lives.empty _ s)) (Sound.empty name s)

end Tends

/-- A module is mapped anew, at another place, and then the registry ends. -/
example :
    let mapping (base : Nat) : Mapping :=
      ⟨none, base, [⟨⟨base + 0x1000, base + 0x2000⟩, ⟨true, false, true⟩⟩]⟩
    let acts : List Act :=
      [.deed (.move (.load 1 (mapping 0x400000))), .start, .deed (.apply 1 [⟨0x1100, 0⟩]),
        .deed (.move (.load 1 (mapping 0x500000))), .close]
    let j := (run Rehearsal.crew.watched "a" acts { state := {} }).2
    j.story 0 = [.build ⟨0x401100, 0, 1⟩ (some 0), .activate 0, .detach 0] ∧
      j.story 1 = [.build ⟨0x501100, 0, 1⟩ (some 1), .activate 1, .revert 1, .remove 1] := by
  decide +kernel

end Station

end CallProfiler.Image
