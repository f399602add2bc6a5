import CallProfiler.Proofs.Image.Handling
import CallProfiler.Proofs.Image.Refinement
import CallProfiler.Proofs.Image.Tracking

/-!
# Runs of a registry from its start to its end

A registry comes and goes at a tracker, requests are served, and locks that were asked for can be held
for as long as one likes, also while other requests are served and after the registry has ended.  The
hosts are watched, and may fail in any pattern.

**Main statements.**
* `Sound.perform`: what every act preserves, and how it is conducted; `Sound.run`: so do all runs.
* `Station.acts_are_guarded`: in every act of every run, code is touched only while guards taken in
  that act cover it, all these guards are released once unless a lock returned holds them, and no
  patch is lost.
* `Station.locked_code_is_writable`: how long the code of a lock that is held stays writable.
-/

namespace CallProfiler.Image

open Journal (Balanced)

variable {σ : Type}

/-- A registry knows mappings of their modules, under numbers that were given out. -/
def Registry.InStep (g : Registry) (t : Tracker) : Prop :=
  ∀ k ∈ g.mappings, k.mapping ≤ t.lastMapping ∧
    ∀ x ∈ t.mappings, x.id = k.mapping → x.module = k.module

namespace Registry.InStep

variable {t t' : Tracker} {g g' : Registry}

theorem of_mappings
    (h : g.InStep t)
    (hmappings : g'.mappings = g.mappings) :
    g'.InStep t := by
  unfold InStep
  rw [hmappings]
  exact h

/-- What the registry can hold is current. -/
theorem pins
    (h : g.InStep t)
    (ht : t.Orderly)
    {x : Errand}
    (hx : x.current = t.current) :
    x.Pins t.mapping? g := by
  intro k hk mapping hpin
  obtain ⟨module, hmem⟩ := Tracker.mem_of_mapping? hpin
  have hmodule : module = k.module := (h k hk).2 _ hmem rfl
  rw [hx, ← hmodule]
  exact ht.current_of_mem hmem

/-- A load does not concern what is known. -/
theorem load
    (h : g.InStep t)
    (module : Nat) (mapping : Mapping) :
    g.InStep (t.load module mapping).2.2 := by
  intro k hk
  obtain ⟨hbound, hmodule⟩ := h k hk
  refine ⟨Nat.le_succ_of_le hbound, ?_⟩
  intro x hx hid
  obtain ⟨hold, _⟩ | rfl := Tracker.mem_load.1 hx
  · exact hmodule x hold hid
  · have hnew : t.lastMapping + 1 = k.mapping := hid
    omega

theorem unload
    (h : g.InStep t)
    (id : Nat) :
    g.InStep (t.unload id).2.2 := by
  intro k hk
  obtain ⟨hbound, hmodule⟩ := h k hk
  refine ⟨?_, fun x hx => hmodule x (Tracker.mem_of_mem_unload hx)⟩
  rw [Tracker.lastMapping_unload]
  exact hbound

/-- What was reported of mappings that are there is known rightly. -/
theorem of_events
    (h : g.InStep t)
    (ht : t.Orderly)
    {events : List Event}
    (hevents : ∀ module id mapping, .mapped module id mapping ∈ events →
      ⟨id, module, mapping⟩ ∈ t.mappings)
    (hmappings : ∀ k ∈ g'.mappings, k ∈ g.mappings ∨
      ∃ mapping, .mapped k.module k.mapping mapping ∈ events) :
    g'.InStep t := by
  intro k hk
  obtain hold | ⟨mapping, he⟩ := hmappings k hk
  · exact h k hold
  · have hmem := hevents k.module k.mapping mapping he
    refine ⟨ht.bounded _ hmem, ?_⟩
    intro x hx hid
    exact congrArg Tracked.module (List.inj_on_of_nodup_map ht.ids hx hmem hid)

end Registry.InStep

/-! ## Stations -/

/-- The crew whose hosts keep journals. -/
def Crew.watched (crew : Crew σ) : Crew (Journal σ) where
  host := fun name => (crew.host name).watched
  observe := fun name e j => { j with state := crew.observe name e j.state }

/-- A tracker, at which a registry may listen, and the locks that are held. -/
structure Station where
  fleet : Fleet := {}
  held : List Lock := []

/-- What can happen at a station. -/
inductive Act where
  /-- A registry starts to listen, unless there is one. -/
  | start
  | deed (d : Deed)
  | lock (module : Nat)
  /-- One of the locks is let go. -/
  | release (index : Nat)
  /-- The registry ends. -/
  | close

/-- The module for which patches may be built in an act. -/
def Act.module? : Act → Option Nat
  | .deed (.move (.load module _)) => some module
  | .deed (.apply module _) => some module
  | _ => none

namespace Station

/-- The guards of all locks that are held. -/
def guards (st : Station) : List Nat := st.held.flatMap (·.guards)

/-- The current mapping of a module. -/
def current (st : Station) : Nat → Option Mapping := st.fleet.tracker.current

/-- A record of the module holds the patch. -/
def Owns (st : Station) (module p : Nat) : Prop :=
  ∃ m ∈ st.fleet.members, Holds m.registry.records module p

/-- An act of the registry with a name. -/
def perform (crew : Crew σ) (name : String) (st : Station) (s : σ) : Act → Station × σ
  | .start =>
    if (st.fleet.member? name).isSome then (st, s)
    else
      let (fleet, s) := st.fleet.create crew name false s
      ({ st with fleet }, s)
  | .deed d =>
    let (_, fleet, s) := st.fleet.perform crew name s d
    ({ st with fleet }, s)
  | .lock module =>
    let (l, s) := st.fleet.lock crew name module s
    ({ st with held := st.held ++ l.toList }, s)
  | .release index =>
    ({ st with held := st.held.eraseIdx index },
      Registry.unlock (crew.host name) st.held[index]? s)
  | .close =>
    let (fleet, s) := st.fleet.drop crew name s
    ({ st with fleet }, s)

/-- Acts one after the other, from nothing on. -/
def run (crew : Crew σ) (name : String) (acts : List Act) (s : σ) : Station × σ :=
  acts.foldl (fun (st, s) act => st.perform crew name s act) ({}, s)

/-- What holds of a station between acts. -/
structure Sound (name : String) (st : Station) (j : Journal σ) : Prop where
  balanced : Balanced st.guards j
  code : ∀ l ∈ st.held, ∀ region ∈ l.mapping.executableRegions,
    ∃ g ∈ l.guards, .protect region (some g) ∈ j.calls
  fleet : ∃ t, t.Orderly ∧ (st.fleet = ⟨t, [], []⟩ ∨
    ∃ listener g, st.fleet = Fleet.single t name listener g ∧ g.InStep t)

/-- The act goes from one station and journal to others in order. -/
structure Conducted (name : String) (act : Act) (st st' : Station) (j j' : Journal σ) : Prop where
  underway : Underway ⟨st'.current, st.Owns, act.module?, j.calls⟩ [] st'.Owns st'.guards j'
  sound : Sound name st' j'

theorem owns_nobody
    (t : Tracker) (held : List Lock) :
    Owns ⟨⟨t, [], []⟩, held⟩ = fun _ _ => False := by
  funext module p
  simp [Owns]

theorem owns_single
    (t : Tracker) (name : String) (listener : Nat) (g : Registry) (held : List Lock) :
    Owns ⟨Fleet.single t name listener g, held⟩ = Holds g.records := by
  funext module p
  simp [Owns, Fleet.single]

theorem guards_append
    (fleet : Fleet) (held : List Lock) (l : Option Lock) :
    (guardsOf l ++ guards ⟨fleet, held⟩).Perm (guards ⟨fleet, held ++ l.toList⟩) := by
  simp only [guards, List.flatMap_append]
  refine List.perm_append_comm.trans ?_
  cases l with
  | none => exact List.Perm.refl _
  | some l => simp [guardsOf]

theorem guards_eraseIdx
    (fleet : Fleet) (held : List Lock) (index : Nat) :
    (guards ⟨fleet, held⟩).Perm (guardsOf held[index]? ++ guards ⟨fleet, held.eraseIdx index⟩) := by
  simp only [guards]
  induction held generalizing index with
  | nil =>
      exact List.Perm.refl _
  | cons l rest ih =>
      cases index with
      | zero =>
          exact List.Perm.refl _
      | succ index =>
          rw [List.flatMap_cons, List.getElem?_cons_succ, List.eraseIdx_cons_succ, List.flatMap_cons]
          exact ((ih index).append_left _).trans (List.perm_append_comm_assoc _ _ _)

namespace Sound

variable {crew : Crew σ} {name : String} {t : Tracker} {listener : Nat} {g : Registry}
  {held : List Lock} {st : Station} {j j' : Journal σ}

/-- Nothing has happened yet. -/
theorem empty
    (name : String) (s : σ) :
    Sound name {} { state := s } where
  balanced := Journal.balanced_empty s
  code := by simp
  fleet := ⟨{}, Tracker.Orderly.empty, .inl rfl⟩

/-- What the locks cover stays in the journal. -/
theorem code_of_begun
    (h : Sound name st j)
    (hbegun : j.calls <+: j'.calls) :
    ∀ l ∈ st.held, ∀ region ∈ l.mapping.executableRegions,
      ∃ g ∈ l.guards, .protect region (some g) ∈ j'.calls := by
  intro l hl region hregion
  obtain ⟨g, hg, htaken⟩ := h.code l hl region hregion
  exact ⟨g, hg, hbegun.subset htaken⟩

/-- Nothing is done, except that modules come and go unheard. -/
theorem idle
    {t' : Tracker}
    (h : Sound name ⟨⟨t, [], []⟩, held⟩ j)
    (ht' : t'.Orderly)
    (act : Act) :
    Conducted name act ⟨⟨t, [], []⟩, held⟩ ⟨⟨t', [], []⟩, held⟩ j j where
  underway := by
    rw [owns_nobody, owns_nobody]
    exact Underway.start t'.current _ act.module? h.balanced
  sound := ⟨h.balanced, h.code, t', ht', .inl rfl⟩

/-- Only the registry and the tracker have changed. -/
theorem conducted
    {t' : Tracker} {g' : Registry} {act : Act}
    (h : Sound name ⟨Fleet.single t name listener g, held⟩ j)
    (ht' : t'.Orderly)
    (hg' : g'.InStep t')
    (hunderway : Underway ⟨t'.current, Holds g.records, act.module?, j.calls⟩ []
      (Holds g'.records) (guards ⟨Fleet.single t name listener g, held⟩) j') :
    Conducted name act ⟨Fleet.single t name listener g, held⟩
      ⟨Fleet.single t' name listener g', held⟩ j j' where
  underway := by
    rw [owns_single, owns_single]
    exact hunderway
  sound := ⟨hunderway.balanced, h.code_of_begun hunderway.begun, t', ht',
    .inr ⟨listener, g', rfl, hg'⟩⟩

/-- Events of the tracker are followed. -/
theorem followAll
    (host : Host σ) (concerned : Option Nat) {gs : List Nat}
    (h : Balanced gs j)
    (ht : t.Orderly)
    (hg : g.InStep t)
    {events : List Event}
    (hevents : ∀ module id mapping, .mapped module id mapping ∈ events →
      ⟨id, module, mapping⟩ ∈ t.mappings)
    (hready : g.records = [] ∨ ∀ module id mapping, .mapped module id mapping ∈ events →
      concerned = some module) :
    ∃ finished g' j', Registry.followAll host.watched events g j = (finished, g', j') ∧
      g'.InStep t ∧
      Underway ⟨t.current, Holds g.records, concerned, j.calls⟩ [] (Holds g'.records) gs j' := by
  obtain ⟨finished, g', j', hfollow, hmappings, h'⟩ :=
    (Underway.start t.current (Holds g.records) concerned h).followAll host events
      (fun module id mapping he => ht.current_of_mem (hevents module id mapping he)) hready
  exact ⟨finished, g', j', hfollow, hg.of_events ht hevents hmappings, h'⟩

/-- A registry starts to listen. -/
theorem start
    (h : Sound name ⟨⟨t, [], []⟩, held⟩ j)
    (ht : t.Orderly) :
    ∃ st' j', perform crew.watched name ⟨⟨t, [], []⟩, held⟩ j .start = (st', j') ∧
      Conducted name .start ⟨⟨t, [], []⟩, held⟩ st' j j' := by
  have ht' : t.subscribe.2.2.Orderly := ht.of_mappings rfl rfl
  have hevents : ∀ module id mapping, .mapped module id mapping ∈ t.subscribe.2.1 →
      ⟨id, module, mapping⟩ ∈ t.subscribe.2.2.mappings := by
    intro module id mapping he
    obtain ⟨x, hx, heq⟩ := List.mem_map.1 he
    cases heq
    exact hx
  have hempty : ({} : Registry).InStep t.subscribe.2.2 := by
    intro k hk
    cases hk
  obtain ⟨finished, g, j', hfollow, hg, hunderway⟩ :=
    followAll (crew.host name) none h.balanced ht' hempty hevents (.inl rfl)
  have hcreate : Fleet.create crew.watched name false ⟨t, [], []⟩ j =
      (Fleet.single t.subscribe.2.2 name t.subscribe.1 g, j') := by
    simp only [Fleet.create_single, Crew.watched, hfollow]
  refine ⟨⟨Fleet.single t.subscribe.2.2 name t.subscribe.1 g, held⟩, j', ?_, ?_, ?_⟩
  · simp only [perform, hcreate]
    rfl
  · have hnothing : Holds ({} : Registry).records = fun _ _ => False := by
      funext module p
      simp [Holds]
    rw [owns_nobody, owns_single, ← hnothing]
    exact hunderway
  · exact ⟨hunderway.balanced, h.code_of_begun hunderway.begun, _, ht', .inr ⟨_, g, rfl, hg⟩⟩

/-- Something is done while nobody listens. -/
theorem deed_nobody
    (h : Sound name ⟨⟨t, [], []⟩, held⟩ j)
    (ht : t.Orderly)
    (d : Deed) :
    ∃ st' j', perform crew.watched name ⟨⟨t, [], []⟩, held⟩ j (.deed d) = (st', j') ∧
      Conducted name (.deed d) ⟨⟨t, [], []⟩, held⟩ st' j j' := by
  cases d with
  | move movement =>
      cases movement with
      | load module mapping =>
          refine ⟨⟨⟨(t.load module mapping).2.2, [], []⟩, held⟩, j, ?_,
            h.idle (ht.load module mapping) _⟩
          simp only [perform, Fleet.perform, Fleet.move, Fleet.load, Fleet.tell_nobody]
      | unload id =>
          refine ⟨⟨⟨(t.unload id).2.2, [], []⟩, held⟩, j, ?_, h.idle (ht.unload id) _⟩
          simp only [perform, Fleet.perform, Fleet.move, Fleet.unload, Fleet.tell_nobody]
  | apply module targets =>
      exact ⟨_, j, rfl, h.idle ht _⟩
  | revert module offsets =>
      exact ⟨_, j, rfl, h.idle ht _⟩

/-- Something is done while the registry listens. -/
theorem deed_single
    (h : Sound name ⟨Fleet.single t name listener g, held⟩ j)
    (ht : t.Orderly)
    (hg : g.InStep t)
    (d : Deed) :
    ∃ st' j', perform crew.watched name ⟨Fleet.single t name listener g, held⟩ j (.deed d) =
        (st', j') ∧
      Conducted name (.deed d) ⟨Fleet.single t name listener g, held⟩ st' j j' := by
  cases d with
  | move movement =>
      cases movement with
      | load module mapping =>
          have hevents : ∀ module' id mapping',
              .mapped module' id mapping' ∈ (t.load module mapping).2.1 →
              module' = module ∧ ⟨id, module', mapping'⟩ ∈ (t.load module mapping).2.2.mappings := by
            intro module' id mapping' he
            simp only [Tracker.load, List.mem_append, List.mem_map, reduceCtorEq, and_false,
              exists_false, List.mem_singleton, false_or, Event.mapped.injEq] at he
            obtain ⟨rfl, rfl, rfl⟩ := he
            exact ⟨rfl, Tracker.mem_load.2 (.inr rfl)⟩
          obtain ⟨finished, g', j', hfollow, hg', hunderway⟩ :=
            followAll (crew.host name) (some module) h.balanced (ht.load module mapping)
              (hg.load module mapping) (fun _ _ _ he => (hevents _ _ _ he).2)
              (.inr fun _ _ _ he => congrArg some (hevents _ _ _ he).1.symm)
          refine ⟨_, j', ?_, h.conducted (ht.load module mapping) hg' hunderway⟩
          simp only [perform, Fleet.perform, Fleet.move, Fleet.load_single, Crew.watched, hfollow]
      | unload id =>
          have hevents : ∀ module id' mapping, .mapped module id' mapping ∉ (t.unload id).2.1 := by
            intro module id' mapping
            unfold Tracker.unload
            split <;> simp
          obtain ⟨finished, g', j', hfollow, hg', hunderway⟩ :=
            followAll (crew.host name) none h.balanced (ht.unload id) (hg.unload id)
              (fun _ _ _ he => absurd he (hevents _ _ _))
              (.inr fun _ _ _ he => absurd he (hevents _ _ _))
          refine ⟨_, j', ?_, h.conducted (ht.unload id) hg' hunderway⟩
          simp only [perform, Fleet.perform, Fleet.move, Fleet.unload_single, Crew.watched, hfollow]
  | apply module targets =>
      have hstart := Underway.start t.current (Holds g.records) (some module) h.balanced
      obtain ⟨changes, g', j', happly, hmappings, hunderway⟩ :=
        hstart.apply (crew.host name) (hg.pins ht rfl) rfl targets
      refine ⟨_, j', ?_, h.conducted ht (hg.of_mappings hmappings) hunderway⟩
      simp only [perform, Fleet.perform, Fleet.apply_single, Crew.watched, happly]
  | revert module offsets =>
      have hstart := Underway.start t.current (Holds g.records) none h.balanced
      obtain ⟨changes, g', j', hrevert, hmappings, hunderway⟩ :=
        hstart.revert (crew.host name) (hg.pins ht rfl) module offsets
      refine ⟨_, j', ?_, h.conducted ht (hg.of_mappings hmappings) hunderway⟩
      simp only [perform, Fleet.perform, Fleet.revert_single, Crew.watched, hrevert]

/-- A lock is asked for. -/
theorem lock_single
    (h : Sound name ⟨Fleet.single t name listener g, held⟩ j)
    (ht : t.Orderly)
    (hg : g.InStep t)
    (module : Nat) :
    ∃ st' j', perform crew.watched name ⟨Fleet.single t name listener g, held⟩ j (.lock module) =
        (st', j') ∧
      Conducted name (.lock module) ⟨Fleet.single t name listener g, held⟩ st' j j' := by
  have hstart := Underway.start t.current (Holds g.records) none h.balanced
  obtain ⟨l, j', hlock, hplaces, hunderway⟩ := hstart.lock (crew.host name) (hg.pins ht rfl) module
  have hguards := guards_append (Fleet.single t name listener g) held l
  refine ⟨⟨Fleet.single t name listener g, held ++ l.toList⟩, j', ?_, ?_, ?_⟩
  · simp only [perform, Fleet.lock, Fleet.member?_single, Fleet.pin_single, Crew.watched, hlock]
  · rw [owns_single, owns_single]
    exact hunderway.uncovered.guards hguards
  · refine ⟨hunderway.balanced.perm hguards, ?_, t, ht, .inr ⟨listener, g, rfl, hg⟩⟩
    intro k hk region hregion
    obtain hold | hnew := List.mem_append.1 hk
    · exact h.code_of_begun hunderway.begun k hold region hregion
    · rw [Option.mem_toList] at hnew
      cases hnew
      obtain ⟨g', hg', htaken⟩ := hunderway.covers region hregion
      refine ⟨g', (List.mem_append.1 hg').resolve_right fun hold => ?_, List.mem_of_mem_drop htaken⟩
      have hfresh := h.balanced.fresh hunderway.balanced hunderway.calls_eq htaken
      exact Nat.not_lt.2 hfresh (h.balanced.known g' hold)

/-- A lock is let go. -/
theorem release
    (h : Sound name st j)
    (index : Nat) :
    Conducted name (.release index) st (st.perform crew.watched name j (.release index)).1 j
      (st.perform crew.watched name j (.release index)).2 := by
  have hguards := guards_eraseIdx st.fleet st.held index
  have hstart := Underway.start st.current st.Owns none h.balanced
  have hunderway := (hstart.guards hguards).unlock (crew.host name)
  refine ⟨hunderway, hunderway.balanced, ?_, h.fleet⟩
  intro l hl
  exact h.code_of_begun hunderway.begun l (List.mem_of_mem_eraseIdx hl)

/-- The registry ends. -/
theorem close_single
    (h : Sound name ⟨Fleet.single t name listener g, held⟩ j)
    (ht : t.Orderly)
    (hg : g.InStep t) :
    ∃ st' j', perform crew.watched name ⟨Fleet.single t name listener g, held⟩ j .close = (st', j') ∧
      Conducted name .close ⟨Fleet.single t name listener g, held⟩ st' j j' := by
  have hstart := Underway.start t.current (Holds g.records) none h.balanced
  have hunderway := hstart.close (crew.host name) (hg.pins ht rfl)
  refine ⟨⟨⟨t.unsubscribe listener, [], []⟩, held⟩,
    g.close (crew.host name).watched t.mapping? j, ?_, ?_, ?_⟩
  · simp only [perform, Fleet.drop_single, Crew.watched]
  · rw [owns_single, owns_nobody]
    exact hunderway
  · exact ⟨hunderway.balanced, h.code_of_begun hunderway.begun, t.unsubscribe listener,
      ht.of_mappings rfl rfl, .inl rfl⟩

/-- **What an act preserves, and how it is conducted.** -/
theorem perform
    (crew : Crew σ)
    (h : Sound name st j)
    (act : Act) :
    ∃ st' j', st.perform crew.watched name j act = (st', j') ∧ Conducted name act st st' j j' := by
  obtain ⟨fleet, held⟩ := st
  obtain ⟨t, ht, hfleet⟩ := h.fleet
  dsimp only at hfleet
  obtain rfl | ⟨listener, g, rfl, hg⟩ := hfleet
  · cases act with
    | start => exact h.start ht
    | deed d => exact h.deed_nobody ht d
    | lock module =>
        refine ⟨⟨⟨t, [], []⟩, held⟩, j, ?_, h.idle ht _⟩
        simp [Station.perform, Fleet.lock, Fleet.member?]
    | release index => exact ⟨_, _, rfl, h.release index⟩
    | close => exact ⟨_, j, rfl, h.idle ht _⟩
  · cases act with
    | start =>
        refine ⟨_, j, ?_, h.conducted ht hg (Underway.start _ _ _ h.balanced)⟩
        simp only [Station.perform, Fleet.member?_single, Option.isSome_some, if_true]
    | deed d => exact h.deed_single ht hg d
    | lock module => exact h.lock_single ht hg module
    | release index => exact ⟨_, _, rfl, h.release index⟩
    | close => exact h.close_single ht hg

/-- Acts one after the other. -/
theorem performAll
    (crew : Crew σ) (acts : List Act)
    (h : Sound name st j) :
    ∃ st' j', acts.foldl (fun (st, s) act => st.perform crew.watched name s act) (st, j) =
      (st', j') ∧ Sound name st' j' := by
  induction acts generalizing st j with
  | nil =>
      exact ⟨st, j, rfl, h⟩
  | cons act rest ih =>
      obtain ⟨st1, j1, hperform, h1⟩ := h.perform crew act
      obtain ⟨st', j', hrest, h'⟩ := ih h1.sound
      refine ⟨st', j', ?_, h'⟩
      rw [List.foldl_cons]
      simp only [hperform]
      exact hrest

/-- **What holds after every run.** -/
theorem run
    (crew : Crew σ) (name : String) (acts : List Act) (s : σ) :
    Sound name (Station.run crew.watched name acts { state := s }).1
      (Station.run crew.watched name acts { state := s }).2 := by
  obtain ⟨st', j', hrun, h'⟩ := (empty name s).performAll crew acts
  unfold Station.run
  rw [hrun]
  exact h'

end Sound

/-- What a request and the end of the registry come to while a lock is held. -/
example :
    let code : Memory.Region := ⟨⟨0x401000, 0x402000⟩, ⟨true, false, true⟩⟩
    let mapping : Mapping := ⟨none, 0x400000, [⟨⟨0x400000, 0x401000⟩, ⟨true, false, false⟩⟩, code]⟩
    let acts : List Act :=
      [.deed (.move (.load 1 mapping)), .start, .lock 1, .deed (.apply 1 [⟨4352, 0⟩]), .close]
    (run Rehearsal.crew.watched "a" acts { state := {} }).2.calls =
      [.createAllocator code.range, .protect code (some 0),
        .protect code (some 1), .build ⟨0x401100, 0, 1⟩ (some 0), .activate 0, .release 1 code,
        .protect code (some 2), .revert 0, .remove 0, .release 2 code, .dropAllocator 0] := by
  decide +kernel

/-- **How long locked code stays writable.**  While a lock is held, each executable region of its
mapping has a guard that is not released.  But a guard of a request, or of another lock, restores what
was recorded when it is released: until one is released that covers an address, everything is allowed
there. -/
theorem locked_code_is_writable
    (crew : Crew σ) (name : String) (s : σ) (acts : List Act)
    (initial : Nat → Memory.Protection)
    {l : Lock}
    (hl : l ∈ (run crew.watched name acts { state := s }).1.held)
    {region : Memory.Region}
    (hregion : region ∈ l.mapping.executableRegions) :
    let calls := (run crew.watched name acts { state := s }).2.calls
    ∃ g ∈ l.guards, ∃ earlier later, calls = earlier ++ .protect region (some g) :: later ∧
      (∀ region', .release g region' ∉ calls) ∧
      ∀ a, region.range.contains a = true →
        (∀ g' region', .release g' region' ∈ later → region'.range.contains a = false) →
        protectionAfter calls initial a = .all := by
  intro calls
  have hsound := Sound.run crew name acts s
  obtain ⟨g, hg, htaken⟩ := hsound.code l hl region hregion
  obtain ⟨earlier, later, hsplit⟩ := List.append_of_mem htaken
  refine ⟨g, hg, earlier, later, hsplit, ?_, ?_⟩
  · intro region'
    exact hsound.balanced.not_released (List.mem_flatMap.2 ⟨l, hl, hg⟩)
  · intro a ha hlater
    have hcalls : calls = earlier ++ .protect region (some g) :: later := hsplit
    rw [hcalls]
    exact protectionAfter_protected earlier later initial ha hlater

/-- While the code of one module is locked, a function of another module is patched and a guard of that
module's code comes and goes; the locked code stays writable. -/
theorem locked_code_is_writable_undisturbed :
    let code : Memory.Region := ⟨⟨0x401000, 0x402000⟩, ⟨true, false, true⟩⟩
    let mapping : Mapping := ⟨none, 0x400000, [⟨⟨0x400000, 0x401000⟩, ⟨true, false, false⟩⟩, code]⟩
    let beside : Memory.Region := ⟨⟨0x501000, 0x502000⟩, ⟨true, false, true⟩⟩
    let initial (a : Nat) : Memory.Protection := ⟨true, false, 0x401000 ≤ a⟩
    let acts : List Act :=
      [.deed (.move (.load 1 mapping)), .deed (.move (.load 2 ⟨none, 0x500000, [beside]⟩)), .start,
        .lock 1, .deed (.apply 2 [⟨4352, 0⟩])]
    let after := run Rehearsal.crew.watched "a" acts { state := {} }
    let l : Lock := ⟨[0], mapping, some 0⟩
    l ∈ after.1.held ∧ code ∈ l.mapping.executableRegions ∧ .release 1 beside ∈ after.2.calls ∧
      (∃ g ∈ l.guards, ∃ earlier later,
        after.2.calls = earlier ++ .protect code (some g) :: later ∧
        ∀ region', .release g region' ∉ after.2.calls) ∧
      ∀ a, code.range.contains a = true → protectionAfter after.2.calls initial a = .all := by
  intro code mapping beside initial acts after l
  have hl : l ∈ after.1.held := by decide +kernel
  have hcode : code ∈ l.mapping.executableRegions := by decide +kernel
  have hcalls : after.2.calls =
      [.createAllocator code.range, .createAllocator beside.range, .protect code (some 0),
        .protect beside (some 1), .build ⟨0x501100, 0, 1⟩ (some 0), .activate 0, .release 1 beside] := by
    decide +kernel
  obtain ⟨g, hg, earlier, later, hsplit, hkept, hwritable⟩ :=
    locked_code_is_writable Rehearsal.crew "a" {} acts initial hl hcode
  refine ⟨hl, hcode, by rw [hcalls]; simp, ⟨g, hg, earlier, later, hsplit, hkept⟩, fun a ha => ?_⟩
  refine hwritable a ha fun g' region' hreleased => ?_
  have hmem : .release g' region' ∈ after.2.calls := by
    rw [show after.2.calls = _ from hsplit]
    exact List.mem_append_right _ (List.mem_cons_of_mem _ hreleased)
  obtain ⟨-, rfl⟩ : g' = 1 ∧ region' = beside := by
    simpa [hcalls] using hmem
  simp only [code, beside, Memory.Range.contains, Bool.and_eq_true, decide_eq_true_eq,
    Bool.and_eq_false_iff, decide_eq_false_iff_not] at ha ⊢
  omega

/-- A lock is held, a patch is applied, and after that the code is no longer writable: the request has
restored the protection that was recorded. -/
theorem locked_code_is_restored :
    let code : Memory.Region := ⟨⟨0x401000, 0x402000⟩, ⟨true, false, true⟩⟩
    let mapping : Mapping := ⟨none, 0x400000, [⟨⟨0x400000, 0x401000⟩, ⟨true, false, false⟩⟩, code]⟩
    let initial (a : Nat) : Memory.Protection := ⟨true, false, 0x401000 ≤ a⟩
    let acts : List Act :=
      [.deed (.move (.load 1 mapping)), .start, .lock 1, .deed (.apply 1 [⟨4352, 0⟩])]
    let after := run Rehearsal.crew.watched "a" acts { state := {} }
    after.1.held = [⟨[0], mapping, some 0⟩] ∧ code ∈ mapping.executableRegions ∧
      code.range.contains 0x401100 = true ∧
      protectionAfter after.2.calls initial 0x401100 = ⟨true, false, true⟩ := by
  decide +kernel

end Station

end CallProfiler.Image
