import CallProfiler.Proofs.Image.Refinement

/-!
# What a listener is told

A listener follows the modules by events alone: a module is mapped under a number, and the mapping
with a number goes away.  For that to make sense, the log of the events has to be causal: each event can
follow those before it.  The tracker takes care of that.  A load reports the old mapping of the module
first, an unload is reported only of a mapping that is there, and a late listener is told of the
mappings there are before anything else.

**Main statements.**
* `Causal`, `live`: logs that make sense, and the mappings that are there after one.
* `Abreast.load`, `Abreast.unload`, `abreast_subscribe`: what is told keeps a log causal and abreast of
  the tracker.
* `Fleet.logs_are_causal`: so it is for every listener in every run, from its subscription to its end.
-/

namespace CallProfiler.Image

variable {σ : Type}

/-! ## Logs of events -/

/-- The mappings that are there after an event, by those there before. -/
def Event.change (there : List Tracked) : Event → List Tracked
  | .mapped module id mapping => there ++ [⟨id, module, mapping⟩]
  | .unmapped id => there.filter (·.id ≠ id)

/-- The mappings that are there after some events. -/
def live (log : List Event) : List Tracked := log.foldl Event.change []

/-- A module is mapped only if it is not mapped, under a new number, and only a mapping that is there
goes away. -/
def Event.CanFollow (log : List Event) : Event → Prop
  | .mapped module id _ =>
    (∀ x ∈ live log, x.module ≠ module) ∧ ∀ module' mapping', .mapped module' id mapping' ∉ log
  | .unmapped id => ∃ x ∈ live log, x.id = id

/-- Each event can follow those before it. -/
inductive Causal : List Event → Prop
  | nil : Causal []
  | concat {log : List Event} {e : Event} : Causal log → e.CanFollow log → Causal (log ++ [e])

theorem live_concat
    (log : List Event) (e : Event) :
    live (log ++ [e]) = e.change (live log) := by
  simp [live]

/-- Mappings that are there go away, one after the other. -/
theorem causal_unmapped
    (gone : List Tracked) {log : List Event}
    (h : Causal log)
    (hthere : ∀ x ∈ gone, x ∈ live log)
    (hids : (gone.map (·.id)).Nodup) :
    Causal (log ++ gone.map (.unmapped ·.id)) ∧
      live (log ++ gone.map (.unmapped ·.id)) = (live log).filter (·.id ∉ gone.map (·.id)) := by
  induction gone generalizing log with
  | nil =>
      simp [h]
  | cons x rest ih =>
      obtain ⟨hnot, hrest⟩ := List.nodup_cons.1 hids
      have hnext : Causal (log ++ [.unmapped x.id]) :=
        h.concat ⟨x, hthere x List.mem_cons_self, rfl⟩
      have hlive := live_concat log (.unmapped x.id)
      have hstays : ∀ y ∈ rest, y ∈ live (log ++ [.unmapped x.id]) := by
        intro y hy
        rw [hlive]
        refine List.mem_filter.2 ⟨hthere y (List.mem_cons_of_mem x hy), ?_⟩
        have hne : y.id ≠ x.id := fun hsame => hnot (List.mem_map.2 ⟨y, hy, hsame⟩)
        simpa using hne
      obtain ⟨hcausal, hleft⟩ := ih hnext hstays hrest
      rw [List.append_assoc] at hcausal hleft
      refine ⟨hcausal, hleft.trans ?_⟩
      rw [hlive, Event.change, List.filter_filter]
      refine List.filter_congr ?_
      intro y _
      rw [List.map_cons, ← Bool.decide_and, decide_eq_decide, List.mem_cons, not_or, and_comm]

/-- New modules are mapped under new numbers, one after the other. -/
theorem causal_mapped
    (new : List Tracked) {log : List Event}
    (h : Causal log)
    (hlive : ∀ x ∈ new, ∀ y ∈ live log, y.module ≠ x.module)
    (hfresh : ∀ x ∈ new, ∀ module mapping, .mapped module x.id mapping ∉ log)
    (hmodules : (new.map (·.module)).Nodup)
    (hids : (new.map (·.id)).Nodup) :
    Causal (log ++ new.map fun x => .mapped x.module x.id x.mapping) ∧
      live (log ++ new.map fun x => .mapped x.module x.id x.mapping) = live log ++ new := by
  induction new generalizing log with
  | nil =>
      simp [h]
  | cons x rest ih =>
      obtain ⟨hmodule, hmodules⟩ := List.nodup_cons.1 hmodules
      obtain ⟨hid, hids⟩ := List.nodup_cons.1 hids
      obtain ⟨hlive0, hlive⟩ := List.forall_mem_cons.1 hlive
      obtain ⟨hfresh0, hfresh⟩ := List.forall_mem_cons.1 hfresh
      have hnext : Causal (log ++ [.mapped x.module x.id x.mapping]) := h.concat ⟨hlive0, hfresh0⟩
      have hthere := live_concat log (.mapped x.module x.id x.mapping)
      have hlive1 : ∀ y ∈ rest, ∀ z ∈ live (log ++ [.mapped x.module x.id x.mapping]),
          z.module ≠ y.module := by
        intro y hy z hz
        rw [hthere] at hz
        obtain hold | hnew := List.mem_append.1 hz
        · exact hlive y hy z hold
        · rw [List.mem_singleton.1 hnew]
          exact fun hsame => hmodule (List.mem_map.2 ⟨y, hy, hsame.symm⟩)
      have hfresh1 : ∀ y ∈ rest, ∀ module mapping,
          .mapped module y.id mapping ∉ log ++ [.mapped x.module x.id x.mapping] := by
        intro y hy module mapping hmem
        obtain hold | hnew := List.mem_append.1 hmem
        · exact hfresh y hy module mapping hold
        · have hsame : y.id = x.id := by
            have heq := List.mem_singleton.1 hnew
            injection heq
          exact hid (List.mem_map.2 ⟨y, hy, hsame⟩)
      obtain ⟨hcausal, hleft⟩ := ih hnext hlive1 hfresh1 hmodules hids
      rw [List.append_assoc] at hcausal hleft
      refine ⟨hcausal, hleft.trans ?_⟩
      rw [hthere]
      exact List.append_assoc _ _ _

/-- The log is causal, its mappings are the tracker's, and its numbers were given out. -/
structure Abreast (log : List Event) (t : Tracker) : Prop where
  causal : Causal log
  live_eq : live log = t.mappings
  given : ∀ module id mapping, .mapped module id mapping ∈ log → id ≤ t.lastMapping

/-- A listener that starts is told of the mappings there are. -/
theorem abreast_subscribe
    {t : Tracker}
    (ht : t.Orderly) :
    Abreast t.subscribe.2.1 t.subscribe.2.2 := by
  obtain ⟨hcausal, hlive⟩ := causal_mapped t.mappings Causal.nil
    (by simp [live]) (by simp) ht.modules ht.ids
  refine ⟨hcausal, hlive, ?_⟩
  intro module id mapping hmem
  obtain ⟨x, hx, heq⟩ := List.mem_map.1 hmem
  cases heq
  exact ht.bounded x hx

namespace Abreast

variable {log : List Event} {t : Tracker}

/-- Who listens does not matter. -/
theorem of_mappings
    {t' : Tracker}
    (h : Abreast log t)
    (hmappings : t'.mappings = t.mappings)
    (hlast : t'.lastMapping = t.lastMapping) :
    Abreast log t' where
  causal := h.causal
  live_eq := h.live_eq.trans hmappings.symm
  given := by
    rw [hlast]
    exact h.given

/-- What a load reports: the old mapping of the module goes away first. -/
theorem load
    (h : Abreast log t)
    (ht : t.Orderly)
    (module : Nat) (mapping : Mapping) :
    Abreast (log ++ (t.load module mapping).2.1) (t.load module mapping).2.2 := by
  let old := t.mappings.filter (·.module = module)
  have hold : ∀ x ∈ old, x ∈ live log := by
    intro x hx
    rw [h.live_eq]
    exact (List.mem_filter.1 hx).1
  have hids : (old.map (·.id)).Nodup := (List.filter_sublist.map _).nodup ht.ids
  obtain ⟨hcausal, hlive⟩ := causal_unmapped old h.causal hold hids
  have hrest : (live log).filter (·.id ∉ old.map (·.id)) = t.mappings.filter (·.module ≠ module) := by
    rw [h.live_eq]
    refine List.filter_congr ?_
    intro x hx
    have hgone : x.id ∈ old.map (·.id) ↔ x.module = module := by
      constructor
      · intro hmem
        obtain ⟨y, hy, hsame⟩ := List.mem_map.1 hmem
        obtain ⟨hy, hmodule⟩ := List.mem_filter.1 hy
        rw [← List.inj_on_of_nodup_map ht.ids hy hx hsame]
        exact of_decide_eq_true hmodule
      · intro hmodule
        exact List.mem_map.2 ⟨x, List.mem_filter.2 ⟨hx, decide_eq_true hmodule⟩, rfl⟩
    simp only [hgone, ne_eq]
  rw [hrest] at hlive
  have hfollows : (Event.mapped module (t.lastMapping + 1) mapping).CanFollow
      (log ++ old.map (.unmapped ·.id)) := by
    refine ⟨?_, ?_⟩
    · intro x hx
      rw [hlive] at hx
      exact of_decide_eq_true (List.mem_filter.1 hx).2
    · intro module' mapping' hmem
      obtain hearlier | hgone := List.mem_append.1 hmem
      · exact absurd (h.given _ _ _ hearlier) (Nat.not_succ_le_self _)
      · obtain ⟨x, _, heq⟩ := List.mem_map.1 hgone
        cases heq
  have hnext := hcausal.concat hfollows
  have hthere := live_concat (log ++ old.map (.unmapped ·.id)) (.mapped module (t.lastMapping + 1) mapping)
  rw [hlive] at hthere
  rw [List.append_assoc] at hnext hthere
  refine ⟨hnext, hthere, ?_⟩
  intro module' id mapping' hmem
  obtain hearlier | hreported := List.mem_append.1 hmem
  · exact Nat.le_succ_of_le (h.given _ _ _ hearlier)
  · obtain hgone | hnew := List.mem_append.1 hreported
    · obtain ⟨x, _, heq⟩ := List.mem_map.1 hgone
      cases heq
    · cases List.mem_singleton.1 hnew
      exact Nat.le_refl _

/-- What an unload reports. -/
theorem unload
    (h : Abreast log t)
    (id : Nat) :
    Abreast (log ++ (t.unload id).2.1) (t.unload id).2.2 := by
  unfold Tracker.unload
  by_cases hany : t.mappings.any (·.id = id)
  · rw [if_pos hany]
    obtain ⟨x, hx, hid⟩ := List.any_eq_true.1 hany
    refine ⟨h.causal.concat ⟨x, h.live_eq ▸ hx, of_decide_eq_true hid⟩, ?_, ?_⟩
    · rw [live_concat, h.live_eq]
      rfl
    · intro module id' mapping hmem
      obtain hearlier | hnew := List.mem_append.1 hmem
      · exact h.given _ _ _ hearlier
      · cases List.mem_singleton.1 hnew
  · rw [if_neg hany, List.append_nil]
    exact h

end Abreast

/-! ## Listeners at a tracker -/

/-- What can happen at a tracker with observers. -/
inductive Occasion where
  | move (movement : Movement)
  | subscribe (name : String)
  | unsubscribe (name : String)
  /-- The observer is no longer there, but its subscription is. -/
  | forget (name : String)

namespace Occasion

/-- A module is loaded. -/
def isLoad : Occasion → Bool
  | move (.load _ _) => true
  | _ => false

/-- The observer with the name subscribes. -/
def starts (name : String) : Occasion → Bool
  | subscribe name' => name' = name
  | _ => false

/-- The observer with the name ends, or its subscription does. -/
def ends (name : String) : Occasion → Bool
  | unsubscribe name' => name' = name
  | forget name' => name' = name
  | _ => false

end Occasion

/-- Events with the names of the observers that were told of them. -/
abbrev Told := List (String × Event)

/-- Observers that write down what they are told. -/
def Crew.noting (host : String → Host Told) : Crew Told :=
  ⟨host, fun name e told => told ++ [(name, e)]⟩

/-- The log of the observer with a name. -/
def logOf (name : String) (told : Told) : List Event :=
  (told.filter (·.1 = name)).map (·.2)

theorem logOf_append
    (name : String) (told told' : Told) :
    logOf name (told ++ told') = logOf name told ++ logOf name told' := by
  simp [logOf]

theorem foldl_noting
    (e : Event) (observers : List Observer) (told : Told) :
    observers.foldl (fun told o => told ++ [(o.name, e)]) told =
      told ++ observers.map fun o => (o.name, e) := by
  induction observers generalizing told with
  | nil => simp
  | cons o rest ih => simp [ih]

/-- Different observers are told of an event; the one with the name is among them or not. -/
theorem logOf_observers
    {observers : List Observer}
    (hnames : (observers.map (·.name)).Nodup)
    (name : String) (e : Event) :
    logOf name (observers.map fun o => (o.name, e)) =
      if name ∈ observers.map (·.name) then [e] else [] := by
  induction observers with
  | nil =>
      rfl
  | cons o rest ih =>
      obtain ⟨hnot, hrest⟩ := List.nodup_cons.1 hnames
      have hlater := ih hrest
      by_cases hname : o.name = name
      · subst hname
        rw [if_neg hnot] at hlater
        rw [List.map_cons, List.map_cons, if_pos List.mem_cons_self, ← List.singleton_append,
          logOf_append, hlater]
        simp [logOf]
      · have hmem : name ∈ (o :: rest).map (·.name) ↔ name ∈ rest.map (·.name) := by
          simp [Ne.symm hname]
        rw [List.map_cons, ← List.singleton_append, logOf_append, hlater]
        simp only [hmem]
        simp [logOf, hname]

namespace Fleet

/-- What happens at a tracker with observers. -/
def occur (crew : Crew σ) (f : Fleet) (s : σ) : Occasion → Fleet × σ
  | .move movement => (f.move crew s movement).2
  | .subscribe name => f.subscribe crew name s
  | .unsubscribe name => (f.unsubscribe name, s)
  | .forget name => (f.forget name, s)

def occurAll (crew : Crew σ) (occasions : List Occasion) (f : Fleet) (s : σ) : Fleet × σ :=
  occasions.foldl (fun (f, s) occasion => f.occur crew s occasion) (f, s)

/-- The observers that are told of events. -/
def listening (f : Fleet) : List Observer :=
  f.observers.filter fun o => o.alive && o.listener ∈ f.tracker.listeners

/-- The observer with the name is told of events. -/
def Hears (f : Fleet) (name : String) : Prop := name ∈ f.listening.map (·.name)

instance (f : Fleet) (name : String) : Decidable (f.Hears name) :=
  inferInstanceAs (Decidable (name ∈ f.listening.map (·.name)))

/-- Only observers listen, each with its own name and number. -/
structure Attended (f : Fleet) : Prop where
  members : f.members = []
  tracker : f.tracker.Orderly
  names : (f.observers.map (·.name)).Nodup
  numbers : (f.observers.map (·.listener)).Nodup
  bounded : ∀ o ∈ f.observers, o.listener ≤ f.tracker.lastListener

theorem hears_iff
    {f : Fleet} {name : String} :
    f.Hears name ↔
      ∃ o ∈ f.observers, o.name = name ∧ o.alive = true ∧ o.listener ∈ f.tracker.listeners := by
  simp [Hears, listening, and_assoc, and_left_comm, and_comm]

namespace Attended

variable {f : Fleet} {name : String} {told : Told}

theorem empty : Attended {} where
  members := rfl
  tracker := Tracker.Orderly.empty
  names := List.nodup_nil
  numbers := List.nodup_nil
  bounded := by simp

/-- Those who listen are told of one event. -/
theorem logOf_listening
    (h : f.Attended)
    (e : Event) (name : String) :
    logOf name (f.listening.map fun o => (o.name, e)) = if f.Hears name then [e] else [] := by
  have hnames : (f.listening.map (·.name)).Nodup := (List.filter_sublist.map _).nodup h.names
  rw [logOf_observers hnames]
  rfl

/-- Those who listen are told of events, each of all of them. -/
theorem tell
    (h : f.Attended)
    (host : String → Host Told) (events : List Event) (told : Told) :
    ∃ told', Fleet.tell (.noting host) events f told = (true, f, told') ∧
      ∀ name, logOf name told' = logOf name told ++ if f.Hears name then events else [] := by
  induction events generalizing told with
  | nil =>
      exact ⟨told, rfl, by simp⟩
  | cons e rest ih =>
      obtain ⟨told', hrest, hlogs⟩ := ih (told ++ f.listening.map fun o => (o.name, e))
      have hsame : { f with members := [] } = f := by
        rw [← h.members]
      refine ⟨told', ?_, ?_⟩
      · rw [Fleet.tell, h.members]
        simp only [tellMembers, hsame]
        exact (congrArg (Fleet.tell _ rest f) (foldl_noting e f.listening told)).trans hrest
      · intro name
        rw [hlogs, logOf_append, h.logOf_listening, List.append_assoc]
        by_cases hname : f.Hears name
        · simp only [if_pos hname, List.singleton_append]
        · simp only [if_neg hname, List.append_nil]

end Attended

/-! ## One occasion -/

/-- What an occasion means for the observer with a name. -/
structure Occurs (name : String) (occasion : Occasion) (f f' : Fleet) (told told' : Told) : Prop where
  /-- One that starts to listen is told of the mappings there are. -/
  start : occasion.starts name = true → logOf name told = [] →
    f'.Hears name ∧ Abreast (logOf name told') f'.tracker
  /-- One that listens is told what it has to be told. -/
  hear : occasion.starts name = false → occasion.ends name = false → f.Hears name →
    Abreast (logOf name told) f.tracker → f'.Hears name ∧ Abreast (logOf name told') f'.tracker
  /-- One that ends hears no more. -/
  stop : occasion.ends name = true → ¬ f'.Hears name ∧ logOf name told' = logOf name told
  /-- One that does not listen is told nothing. -/
  deaf : occasion.starts name = false → ¬ f.Hears name →
    ¬ f'.Hears name ∧ logOf name told' = logOf name told

namespace Attended

variable {f : Fleet}

/-- The tracker reports what has changed. -/
theorem report
    (h : f.Attended)
    (host : String → Host Told) (movement : Movement) (told : Told)
    {t : Tracker} {events : List Event}
    (ht : t.Orderly)
    (hlisteners : t.listeners = f.tracker.listeners)
    (hlast : t.lastListener = f.tracker.lastListener)
    (habreast : ∀ log, Abreast log f.tracker → Abreast (log ++ events) t) :
    ∃ told', Fleet.tell (.noting host) events { f with tracker := t } told =
        (true, { f with tracker := t }, told') ∧
      Attended { f with tracker := t } ∧
      ∀ name, Occurs name (.move movement) f { f with tracker := t } told told' := by
  have hf' : Attended { f with tracker := t } :=
    { members := h.members
      tracker := ht
      names := h.names
      numbers := h.numbers
      bounded := by
        rw [hlast]
        exact h.bounded }
  have hhears : ∀ name, Fleet.Hears { f with tracker := t } name ↔ f.Hears name := by
    intro name
    rw [hears_iff, hears_iff, hlisteners]
  obtain ⟨told', htell, hlogs⟩ := hf'.tell host events told
  refine ⟨told', htell, hf', fun name => ⟨?_, ?_, ?_, ?_⟩⟩
  · rintro ⟨⟩
  · intro _ _ hnow hlog
    refine ⟨(hhears name).2 hnow, ?_⟩
    rw [hlogs, if_pos ((hhears name).2 hnow)]
    exact habreast _ hlog
  · rintro ⟨⟩
  · intro _ hdeaf
    have hdeaf' := fun hnow => hdeaf ((hhears name).1 hnow)
    refine ⟨hdeaf', ?_⟩
    rw [hlogs, if_neg hdeaf', List.append_nil]

/-- An observer subscribes: it is told of the mappings there are, and others of nothing. -/
theorem subscribe
    (h : f.Attended)
    (host : String → Host Told) (name : String) (told : Told) :
    ∃ f' told', f.subscribe (.noting host) name told = (f', told') ∧ f'.Attended ∧
      f'.tracker.lastMapping = f.tracker.lastMapping ∧
      ∀ name', Occurs name' (.subscribe name) f f' told told' := by
  let id := f.tracker.lastListener + 1
  let others := f.observers.filter (·.name ≠ name)
  let f' : Fleet :=
    { f with tracker := f.tracker.subscribe.2.2, observers := others ++ [⟨name, id, true⟩] }
  let told' := told ++ f.tracker.subscribe.2.1.map (name, ·)
  have hothers : others.Sublist f.observers := List.filter_sublist
  have hf' : f'.Attended := by
    refine ⟨h.members, h.tracker.of_mappings rfl rfl, ?_, ?_, ?_⟩
    · rw [List.map_append]
      refine List.nodup_append.2 ⟨(hothers.map _).nodup h.names, List.nodup_singleton _, ?_⟩
      intro a ha b hb hsame
      obtain ⟨o, ho, rfl⟩ := List.mem_map.1 ha
      rw [List.mem_singleton.1 hb] at hsame
      exact of_decide_eq_true (List.mem_filter.1 ho).2 hsame
    · rw [List.map_append]
      refine List.nodup_append.2 ⟨(hothers.map _).nodup h.numbers, List.nodup_singleton _, ?_⟩
      intro a ha b hb hsame
      obtain ⟨o, ho, rfl⟩ := List.mem_map.1 ha
      rw [List.mem_singleton.1 hb] at hsame
      have hbound := h.bounded o (hothers.subset ho)
      have hnew : o.listener = f.tracker.lastListener + 1 := hsame
      omega
    · intro o ho
      obtain hold | hnew := List.mem_append.1 ho
      · exact Nat.le_succ_of_le (h.bounded o (hothers.subset hold))
      · rw [List.mem_singleton.1 hnew]
        exact Nat.le_refl _
  have hlisteners : ∀ o ∈ f.observers,
      o.listener ∈ f'.tracker.listeners ↔ o.listener ∈ f.tracker.listeners := by
    intro o ho
    have hbound := h.bounded o ho
    have hne : o.listener ≠ f.tracker.lastListener + 1 := by omega
    simp [f', Tracker.subscribe, hne]
  have hmine : f'.Hears name :=
    hears_iff.2 ⟨⟨name, id, true⟩, by simp [f'], rfl, rfl, by simp [f', Tracker.subscribe, id]⟩
  have hhears : ∀ name', name' ≠ name → (f'.Hears name' ↔ f.Hears name') := by
    intro name' hne
    rw [hears_iff, hears_iff]
    constructor
    · rintro ⟨o, ho, rfl, halive, hlistens⟩
      obtain hold | hnew := List.mem_append.1 ho
      · exact ⟨o, hothers.subset hold, rfl, halive, (hlisteners o (hothers.subset hold)).1 hlistens⟩
      · rw [List.mem_singleton.1 hnew] at hne
        exact absurd rfl hne
    · rintro ⟨o, ho, rfl, halive, hlistens⟩
      have hkept : o ∈ others := List.mem_filter.2 ⟨ho, decide_eq_true hne⟩
      exact ⟨o, List.mem_append_left _ hkept, rfl, halive, (hlisteners o ho).2 hlistens⟩
  have hlog : ∀ name', logOf name' told' =
      logOf name' told ++ if name' = name then f.tracker.subscribe.2.1 else [] := by
    intro name'
    rw [logOf_append]
    by_cases hname : name' = name
    · simp [logOf, hname, List.filter_map, Function.comp_def]
    · simp [logOf, hname, Ne.symm hname, List.filter_map, Function.comp_def]
  have hrun : f.subscribe (.noting host) name told = (f', told') := by
    have hfold : ∀ (events : List Event) (told : Told),
        events.foldl (fun told e => told ++ [(name, e)]) told = told ++ events.map (name, ·) := by
      intro events
      induction events with
      | nil => simp
      | cons e rest ih => simp [ih]
    simp only [Fleet.subscribe, Crew.noting, hfold]
    rfl
  refine ⟨f', told', hrun, hf', rfl, fun name' => ?_⟩
  by_cases hname : name' = name
  · subst hname
    refine ⟨?_, ?_, ?_, ?_⟩
    · intro _ hempty
      refine ⟨hmine, ?_⟩
      rw [hlog, hempty, if_pos rfl]
      exact abreast_subscribe h.tracker
    · intro hother
      simp [Occasion.starts] at hother
    · rintro ⟨⟩
    · intro hother
      simp [Occasion.starts] at hother
  · have hsame : logOf name' told' = logOf name' told := by
      rw [hlog, if_neg hname, List.append_nil]
    refine ⟨?_, ?_, ?_, ?_⟩
    · intro hstarts
      exact absurd (of_decide_eq_true hstarts).symm hname
    · intro _ _ hnow habreast
      rw [hsame]
      exact ⟨(hhears name' hname).2 hnow, habreast.of_mappings rfl rfl⟩
    · rintro ⟨⟩
    · intro _ hdeaf
      exact ⟨fun hnow => hdeaf ((hhears name' hname).1 hnow), hsame⟩

/-- The observer that is found by a name is the only one with it. -/
theorem eq_of_find?
    (h : f.Attended)
    {name : String} {o o' : Observer}
    (hfind : f.observers.find? (·.name = name) = some o)
    (ho' : o' ∈ f.observers)
    (hname : o'.name = name) :
    o' = o := by
  have hsame : o.name = name := by
    simpa using List.find?_some hfind
  exact List.inj_on_of_nodup_map h.names ho' (List.mem_of_find?_eq_some hfind) (hname.trans hsame.symm)

/-- One stops listening, and nobody else. -/
theorem ended
    {f' : Fleet} {occasion : Occasion} {told : Told} {name name' : String}
    (hends : ∀ name', occasion.ends name' = decide (name = name'))
    (hstarts : ∀ name', occasion.starts name' = false)
    (hmappings : f'.tracker.mappings = f.tracker.mappings)
    (hlast : f'.tracker.lastMapping = f.tracker.lastMapping)
    (hhears : ∀ name', f'.Hears name' ↔ f.Hears name' ∧ name' ≠ name) :
    Occurs name' occasion f f' told told where
  start := by simp [hstarts]
  hear := by
    intro _ hstays hnow hlog
    have hne : name ≠ name' := by simpa [hends] using hstays
    exact ⟨(hhears name').2 ⟨hnow, hne.symm⟩, hlog.of_mappings hmappings hlast⟩
  stop := by
    intro hmine
    have heq : name = name' := by simpa [hends] using hmine
    exact ⟨fun hnow => ((hhears name').1 hnow).2 heq.symm, rfl⟩
  deaf := fun _ hdeaf => ⟨fun hnow => hdeaf ((hhears name').1 hnow).1, rfl⟩

/-- The subscription of an observer ends. -/
theorem unsubscribe
    (h : f.Attended)
    (name : String) (told : Told) :
    (f.unsubscribe name).Attended ∧
      (f.unsubscribe name).tracker.lastMapping = f.tracker.lastMapping ∧
      ∀ name', Occurs name' (.unsubscribe name) f (f.unsubscribe name) told told := by
  unfold Fleet.unsubscribe
  cases hfind : f.observers.find? (·.name = name) with
  | none =>
      have hnobody : ∀ o ∈ f.observers, o.name ≠ name := by
        simpa using hfind
      refine ⟨h, rfl, fun _ => ended (fun _ => rfl) (fun _ => rfl) rfl rfl ?_⟩
      intro name'
      refine ⟨fun hnow => ⟨hnow, ?_⟩, And.left⟩
      rintro rfl
      obtain ⟨o, ho, hname, _⟩ := hears_iff.1 hnow
      exact hnobody o ho hname
  | some o =>
      refine ⟨⟨h.members, h.tracker.of_mappings rfl rfl, h.names, h.numbers, h.bounded⟩, rfl,
        fun _ => ended (fun _ => rfl) (fun _ => rfl) rfl rfl ?_⟩
      have ho := List.mem_of_find?_eq_some hfind
      have hmine : o.name = name := by
        simpa using List.find?_some hfind
      intro name'
      rw [hears_iff, hears_iff]
      simp only [Tracker.unsubscribe, List.mem_filter]
      constructor
      · rintro ⟨x, hx, rfl, halive, hlistens, hother⟩
        refine ⟨⟨x, hx, rfl, halive, hlistens⟩, ?_⟩
        intro hname
        rw [h.eq_of_find? hfind hx hname] at hother
        simp at hother
      · rintro ⟨⟨x, hx, rfl, halive, hlistens⟩, hname⟩
        refine ⟨x, hx, rfl, halive, hlistens, ?_⟩
        have hne : x.listener ≠ o.listener := by
          intro hsame
          rw [List.inj_on_of_nodup_map h.numbers hx ho hsame] at hname
          exact hname hmine
        simpa using hne

/-- An observer is gone. -/
theorem forget
    (h : f.Attended)
    (name : String) (told : Told) :
    (f.forget name).Attended ∧
      (f.forget name).tracker.lastMapping = f.tracker.lastMapping ∧
      ∀ name', Occurs name' (.forget name) f (f.forget name) told told := by
  let gone (o : Observer) : Observer := if o.name = name then { o with alive := false } else o
  have hname : ∀ o, (gone o).name = o.name := by
    intro o
    dsimp only [gone]
    split <;> rfl
  have hlistener : ∀ o, (gone o).listener = o.listener := by
    intro o
    dsimp only [gone]
    split <;> rfl
  have hnames : (f.observers.map gone).map (·.name) = f.observers.map (·.name) := by
    simp [Function.comp_def, hname]
  have hnumbers : (f.observers.map gone).map (·.listener) = f.observers.map (·.listener) := by
    simp [Function.comp_def, hlistener]
  refine ⟨⟨h.members, h.tracker, ?_, ?_, ?_⟩, rfl,
    fun _ => ended (fun _ => rfl) (fun _ => rfl) rfl rfl ?_⟩
  · exact hnames ▸ h.names
  · exact hnumbers ▸ h.numbers
  · intro o ho
    obtain ⟨x, hx, rfl⟩ := List.mem_map.1 ho
    rw [hlistener]
    exact h.bounded x hx
  · intro name'
    rw [hears_iff, hears_iff]
    constructor
    · rintro ⟨o, ho, rfl, halive, hlistens⟩
      obtain ⟨x, hx, rfl⟩ := List.mem_map.1 ho
      have hother : x.name ≠ name := by
        intro hmine
        simp [hmine] at halive
      rw [if_neg hother] at halive hlistens ⊢
      exact ⟨⟨x, hx, rfl, halive, hlistens⟩, hother⟩
    · rintro ⟨⟨x, hx, rfl, halive, hlistens⟩, hother⟩
      refine ⟨x, List.mem_map.2 ⟨x, hx, if_neg hother⟩, rfl, halive, hlistens⟩

/-- **What one occasion preserves**, and what it means for everyone. -/
theorem occur
    (h : f.Attended)
    (host : String → Host Told) (told : Told) (occasion : Occasion) :
    ∃ f' told', f.occur (.noting host) told occasion = (f', told') ∧ f'.Attended ∧
      f'.tracker.lastMapping = f.tracker.lastMapping + (if occasion.isLoad then 1 else 0) ∧
      ∀ name, Occurs name occasion f f' told told' := by
  cases occasion with
  | move movement =>
      cases movement with
      | load module mapping =>
          obtain ⟨told', htell, h', hoccurs⟩ := h.report host (.load module mapping) told
            (h.tracker.load module mapping) rfl rfl fun _ hlog => hlog.load h.tracker module mapping
          refine ⟨_, told', ?_, h', rfl, hoccurs⟩
          simp only [Fleet.occur, Fleet.move, Fleet.load, htell]
      | unload id =>
          have hlisteners : (f.tracker.unload id).2.2.listeners = f.tracker.listeners := by
            unfold Tracker.unload
            split <;> rfl
          have hlast : (f.tracker.unload id).2.2.lastListener = f.tracker.lastListener := by
            unfold Tracker.unload
            split <;> rfl
          obtain ⟨told', htell, h', hoccurs⟩ := h.report host (.unload id) told
            (h.tracker.unload id) hlisteners hlast fun _ hlog => hlog.unload id
          refine ⟨_, told', ?_, h', Tracker.lastMapping_unload f.tracker id, hoccurs⟩
          simp only [Fleet.occur, Fleet.move, Fleet.unload, htell]
  | subscribe name => exact h.subscribe host name told
  | unsubscribe name => exact ⟨_, told, rfl, h.unsubscribe name told⟩
  | forget name => exact ⟨_, told, rfl, h.forget name told⟩

end Attended

/-! ## Runs -/

/-- The log of the observer is causal, and abreast of the tracker while it listens. -/
structure Kept (name : String) (f : Fleet) (told : Told) : Prop where
  causal : Causal (logOf name told)
  given : ∀ module id mapping, .mapped module id mapping ∈ logOf name told →
    id ≤ f.tracker.lastMapping
  abreast : f.Hears name → live (logOf name told) = f.tracker.mappings

/-- What happenings mean for an observer that does not start in them; `stays` says when it does not end
either. -/
structure Passes (name : String) (stays : Prop) (f f' : Fleet) (told told' : Told) : Prop where
  deaf : ¬ f.Hears name → ¬ f'.Hears name ∧ logOf name told' = logOf name told
  kept : Kept name f told → Kept name f' told'
  hears : stays → f.Hears name → Kept name f told → f'.Hears name

section Passing

variable {name : String} {f f' f'' : Fleet} {told told' told'' : Told} {occasion : Occasion}

theorem Kept.of_abreast
    (h : Abreast (logOf name told) f.tracker) :
    Kept name f told :=
  ⟨h.causal, h.given, fun _ => h.live_eq⟩

theorem Occurs.passes
    (h : Occurs name occasion f f' told told')
    (hstarts : occasion.starts name = false)
    (hlast : f.tracker.lastMapping ≤ f'.tracker.lastMapping) :
    Passes name (occasion.ends name = false) f f' told told' := by
  have hquiet : ¬ f'.Hears name ∧ logOf name told' = logOf name told →
      Kept name f told → Kept name f' told' := by
    rintro ⟨hdeaf, hsame⟩ hkept
    refine ⟨hsame ▸ hkept.causal, ?_, fun hnow => absurd hnow hdeaf⟩
    rw [hsame]
    exact fun module id mapping hmem => Nat.le_trans (hkept.given module id mapping hmem) hlast
  refine ⟨h.deaf hstarts, ?_, ?_⟩
  · intro hkept
    by_cases hnow : f.Hears name
    · cases hends : occasion.ends name with
      | true => exact hquiet (h.stop hends) hkept
      | false =>
          exact Kept.of_abreast
            (h.hear hstarts hends hnow ⟨hkept.causal, hkept.abreast hnow, hkept.given⟩).2
    · exact hquiet (h.deaf hstarts hnow) hkept
  · intro hends hnow hkept
    exact (h.hear hstarts hends hnow ⟨hkept.causal, hkept.abreast hnow, hkept.given⟩).1

theorem Passes.trans
    {stays stays' : Prop}
    (h : Passes name stays f f' told told')
    (h' : Passes name stays' f' f'' told' told'') :
    Passes name (stays ∧ stays') f f'' told told'' where
  deaf := by
    intro hdeaf
    obtain ⟨hdeaf1, hsame1⟩ := h.deaf hdeaf
    obtain ⟨hdeaf2, hsame2⟩ := h'.deaf hdeaf1
    exact ⟨hdeaf2, hsame2.trans hsame1⟩
  kept := fun hkept => h'.kept (h.kept hkept)
  hears := fun hstays hnow hkept =>
    h'.hears hstays.2 (h.hears hstays.1 hnow hkept) (h.kept hkept)

/-- **What all occasions preserve**, and what they mean for those who do not start in them. -/
theorem Attended.occurAll
    (h : f.Attended)
    (host : String → Host Told) (told : Told) (occasions : List Occasion) :
    ∃ f' told', f.occurAll (.noting host) occasions told = (f', told') ∧ f'.Attended ∧
      f'.tracker.lastMapping = f.tracker.lastMapping + occasions.countP Occasion.isLoad ∧
      ∀ name, (∀ o ∈ occasions, o.starts name = false) →
        Passes name (∀ o ∈ occasions, o.ends name = false) f f' told told' := by
  induction occasions generalizing f told with
  | nil =>
      refine ⟨f, told, rfl, h, rfl, fun name _ => ⟨?_, ?_, ?_⟩⟩
      · exact fun hdeaf => ⟨hdeaf, rfl⟩
      · exact fun hkept => hkept
      · exact fun _ hnow _ => hnow
  | cons occasion rest ih =>
      obtain ⟨f1, told1, hoccur, h1, hlast1, hoccurs⟩ := h.occur host told occasion
      obtain ⟨f', told', hrest, h', hlast', hpasses⟩ := ih h1 told1
      refine ⟨f', told', ?_, h', ?_, ?_⟩
      · unfold Fleet.occurAll
        rw [List.foldl_cons]
        simp only [hoccur]
        exact hrest
      · rw [hlast', hlast1, List.countP_cons]
        omega
      · intro name hstarts
        rw [List.forall_mem_cons] at hstarts
        have hfirst := (hoccurs name).passes hstarts.1 (hlast1 ▸ Nat.le_add_right _ _)
        have hboth := hfirst.trans (hpasses name hstarts.2)
        rw [List.forall_mem_cons]
        exact hboth

end Passing

/-- The tracker with its observers after some occasions, and what these have been told. -/
def listened (host : String → Host Told) (occasions : List Occasion) : Fleet × Told :=
  occurAll (.noting host) occasions {} []

section Runs

variable {name : String} {occasions earlier later : List Occasion} {occasion : Occasion}

theorem listened_attended
    (host : String → Host Told) (occasions : List Occasion) :
    (listened host occasions).1.Attended ∧
      (listened host occasions).1.tracker.lastMapping = occasions.countP Occasion.isLoad := by
  obtain ⟨f', told', hrun, h', hlast, _⟩ := Attended.empty.occurAll host [] occasions
  unfold listened
  rw [hrun]
  exact ⟨h', hlast.trans (Nat.zero_add _)⟩

/-- Before it starts, an observer is told nothing. -/
theorem listened_before
    (host : String → Host Told)
    (hstarts : ∀ o ∈ occasions, o.starts name = false) :
    ¬ (listened host occasions).1.Hears name ∧ logOf name (listened host occasions).2 = [] := by
  obtain ⟨f', told', hrun, _, _, hpasses⟩ := Attended.empty.occurAll host [] occasions
  unfold listened
  rw [hrun]
  exact (hpasses name hstarts).deaf (by simp [Hears, listening])

/-- One occasion after some others. -/
theorem occurs_after
    (host : String → Host Told) (earlier : List Occasion) (occasion : Occasion) (name : String) :
    Occurs name occasion (listened host earlier).1 (listened host (earlier ++ [occasion])).1
      (listened host earlier).2 (listened host (earlier ++ [occasion])).2 := by
  have h := (listened_attended host earlier).1
  obtain ⟨f', told', hoccur, _, _, hoccurs⟩ := h.occur host (listened host earlier).2 occasion
  have hrun : listened host (earlier ++ [occasion]) = (f', told') := by
    rw [← hoccur]
    simp only [listened, occurAll, List.foldl_append, List.foldl_cons, List.foldl_nil]
  rw [hrun]
  exact hoccurs name

/-- More occasions after some others. -/
theorem passes_after
    (host : String → Host Told) (earlier : List Occasion)
    (hstarts : ∀ o ∈ later, o.starts name = false) :
    Passes name (∀ o ∈ later, o.ends name = false) (listened host earlier).1
      (listened host (earlier ++ later)).1 (listened host earlier).2
      (listened host (earlier ++ later)).2 := by
  have h := (listened_attended host earlier).1
  obtain ⟨f', told', hrun, _, _, hpasses⟩ := h.occurAll host (listened host earlier).2 later
  have hall : listened host (earlier ++ later) = (f', told') := by
    rw [← hrun]
    simp only [listened, occurAll, List.foldl_append]
  rw [hall]
  exact hpasses name hstarts

/-- After it starts for the first time, an observer has a causal log that is abreast of the tracker. -/
theorem listened_since
    (host : String → Host Told)
    (hearlier : ∀ o ∈ earlier, o.starts name = false)
    (hlater : ∀ o ∈ later, o.starts name = false) :
    let after := listened host (earlier ++ .subscribe name :: later)
    Kept name after.1 after.2 ∧ ((∀ o ∈ later, o.ends name = false) → after.1.Hears name) := by
  have hstarts : (Occasion.subscribe name).starts name = true := decide_eq_true rfl
  obtain ⟨hhears, habreast⟩ :=
    (occurs_after host earlier (.subscribe name) name).start hstarts (listened_before host hearlier).2
  have hkept := Kept.of_abreast habreast
  have hpasses := passes_after host (earlier ++ [.subscribe name]) hlater
  rw [List.append_assoc] at hpasses
  exact ⟨hpasses.kept hkept, fun hends => hpasses.hears hends hhears hkept⟩

/-- Of occasions of which one alone starts an observer, the others do not. -/
theorem starts_once
    (honce : (earlier ++ occasion :: later).countP (·.starts name) ≤ 1)
    (hstarts : occasion.starts name = true) :
    (∀ o ∈ earlier, o.starts name = false) ∧ ∀ o ∈ later, o.starts name = false := by
  rw [List.countP_append, List.countP_cons, if_pos hstarts] at honce
  have hnone : ∀ l : List Occasion, l.countP (·.starts name) = 0 → ∀ o ∈ l, o.starts name = false := by
    intro l hl o ho
    exact Bool.eq_false_iff.2 (List.countP_eq_zero.1 hl o ho)
  exact ⟨hnone earlier (by omega), hnone later (by omega)⟩

end Runs

/-- **Logs are causal.**  Whatever happens at a tracker with observers, the log of an observer that
subscribes once at most is causal.  As long as it listens, the mappings there are after its log are
exactly the tracker's, whenever it subscribed.  Once its subscription has ended, or it is gone, it is told
nothing.  The tracker has one mapping for a module at most, and the numbers of mappings count the loads. -/
theorem logs_are_causal
    (host : String → Host Told) (occasions : List Occasion) (name : String)
    (honce : occasions.countP (·.starts name) ≤ 1) :
    let after := listened host occasions
    let log := logOf name after.2
    Causal log ∧
      (∀ earlier later, occasions = earlier ++ .subscribe name :: later →
        (∀ o ∈ later, o.ends name = false) → live log = after.1.tracker.mappings) ∧
      (∀ earlier o later, occasions = earlier ++ o :: later → o.ends name = true →
        earlier.any (·.starts name) = true → log = logOf name (listened host earlier).2) ∧
      (after.1.tracker.mappings.map (·.module)).Nodup ∧
      ∀ module id mapping, .mapped module id mapping ∈ log → id ≤ occasions.countP Occasion.isLoad := by
  intro after log
  obtain ⟨hattended, hlast⟩ := listened_attended host occasions
  have hkept : Kept name after.1 after.2 := by
    by_cases hany : ∃ o ∈ occasions, o.starts name = true
    · obtain ⟨o, ho, hstarts⟩ := hany
      obtain ⟨earlier, later, rfl⟩ := List.append_of_mem ho
      obtain ⟨hearlier, hlater⟩ := starts_once honce hstarts
      cases o with
      | subscribe name' =>
          obtain rfl : name' = name := of_decide_eq_true hstarts
          exact (listened_since host hearlier hlater).1
      | _ => cases hstarts
    · have hnone : ∀ o ∈ occasions, o.starts name = false :=
        fun o ho => Bool.eq_false_iff.2 fun hstarts => hany ⟨o, ho, hstarts⟩
      obtain ⟨hdeaf, hempty⟩ := listened_before host hnone
      have hlog : logOf name after.2 = [] := hempty
      exact ⟨hlog ▸ Causal.nil, by simp [hlog], fun hnow => absurd hnow hdeaf⟩
  refine ⟨hkept.causal, ?_, ?_, hattended.tracker.modules, ?_⟩
  · rintro earlier later rfl hends
    obtain ⟨hearlier, hlater⟩ := starts_once honce (decide_eq_true rfl)
    exact hkept.abreast ((listened_since host hearlier hlater).2 hends)
  · rintro earlier o later rfl hends hany
    obtain ⟨o', ho', hstarts⟩ := List.any_eq_true.1 hany
    have hlater : ∀ o ∈ later, o.starts name = false := by
      obtain ⟨first, second, rfl⟩ := List.append_of_mem ho'
      rw [List.append_assoc] at honce
      have hrest := (starts_once honce hstarts).2
      exact fun o ho => hrest o (List.mem_append_right _ (List.mem_cons_of_mem _ ho))
    obtain ⟨hdeaf, hsame⟩ := (occurs_after host earlier o name).stop hends
    have hpasses := passes_after host (earlier ++ [o]) hlater
    rw [List.append_assoc] at hpasses
    exact (hpasses.deaf hdeaf).2.trans hsame
  · rw [← hlast]
    exact hkept.given

/-- An observer subscribes late, a module is loaded anew, another one goes away, and the subscription
ends. -/
theorem logs_are_causal_late :
    let host : String → Host Told := fun _ =>
      ⟨fun _ s => (none, s), fun _ s => s, fun _ s => (none, s), fun _ s => s,
        fun _ _ s => (.refused, s), fun _ s => (.failed, s), fun _ s => s, fun _ _ => false,
        fun _ s => s, fun _ s => s⟩
    let placed (base : Nat) : Mapping := ⟨none, base, []⟩
    let occasions : List Occasion :=
      [.move (.load 1 (placed 0x1000)), .move (.load 2 (placed 0x2000)), .subscribe "late",
        .move (.load 1 (placed 0x3000)), .move (.unload 2), .unsubscribe "late",
        .move (.load 3 (placed 0x4000))]
    let log := logOf "late" (listened host occasions).2
    occasions.countP (·.starts "late") ≤ 1 ∧ Causal log ∧
      log = [.mapped 1 1 (placed 0x1000), .mapped 2 2 (placed 0x2000), .unmapped 1,
        .mapped 1 3 (placed 0x3000), .unmapped 2] := by
  intro host placed occasions log
  have honce : occasions.countP (·.starts "late") ≤ 1 := by decide
  exact ⟨honce, (logs_are_causal host occasions "late" honce).1, by decide⟩

end Fleet

end CallProfiler.Image
