import CallProfiler.Image.Rehearsal
import CallProfiler.Proofs.Image.Observation

/-!
# What becomes of records

A record is made when a patch is first requested for a function, and it stays.  If building its patch
fails, is abandoned or finds no memory, the record is broken for good: nothing brings it back, also not
a new mapping of its module.

**Main statements.**
* `Course.counted`: records have numbers of their own, counted from one.
* `Course.unbuilt_broken`: a patch that could not be built leaves a broken record.
* `TellsFailure`: what a query and the answers to requests tell of a broken record.
* `applyTargets_abandoned`, `mapped_abandoned`: a batch that is abandoned keeps what it has reached.
* `Registry.records_endure`: all of this for every run.
-/

namespace CallProfiler.Image

open Relation

variable {σ : Type}

/-! ## Numbers of records -/

/-- Records are counted as they are made. -/
structure Registry.Counted (g : Registry) : Prop where
  ids : (g.records.map (·.id)).Nodup
  bounded : ∀ r ∈ g.records, 0 < r.id ∧ r.id ≤ g.lastId
  last : g.lastId = g.records.length

/-- The record with a number is broken. -/
def Registry.HasBroken (g : Registry) (id : Nat) : Prop :=
  ∃ r ∈ g.records, r.id = id ∧ r.backing = .broken

theorem Registry.HasBroken.course
    {host : Host σ} {x : Scope} {a b : Registry × σ} {id : Nat}
    (h : a.1.HasBroken id)
    (hcourse : Course host x a b) :
    b.1.HasBroken id := by
  obtain ⟨r, hr, hid, hbroken⟩ := h
  obtain ⟨r', hr', hendures, _⟩ := hcourse.endures hr
  exact ⟨r', hr', hendures.id.trans hid, hendures.broken hbroken⟩

namespace Course

variable {x : Scope}

/-- **Records have numbers of their own.** -/
theorem counted
    {host : Host σ} {a b : Registry × σ}
    (h : Course host x a b)
    (ha : a.1.Counted) :
    b.1.Counted := by
  refine h.preserves (P := fun a => a.1.Counted) ?_ ha
  intro a b hstage ha
  cases hstage with
  | tables => exact ⟨ha.ids, ha.bounded, ha.last⟩
  | prepare g hcall => exact ha
  | create s hsplit hmodule hid habsent hnew =>
      obtain ⟨hids, hbounded, hlast⟩ := ha
      dsimp only at hids hbounded hlast
      rw [hsplit] at hids hbounded hlast
      refine ⟨?_, ?_, ?_⟩
      · rw [(List.perm_middle.map _).nodup_iff, List.map_cons, List.nodup_cons]
        refine ⟨?_, hids⟩
        intro hmem
        obtain ⟨y, hy, hsame⟩ := List.mem_map.1 hmem
        have hbound := (hbounded y hy).2
        omega
      · intro r hr
        obtain rfl | hold := List.mem_cons.1 (List.perm_middle.mem_iff.1 hr)
        · dsimp only
          omega
        · have hbound := hbounded r hold
          dsimp only
          omega
      · rw [List.perm_middle.length_eq, List.length_cons, hlast]
  | record hsplit hmodule hrecord =>
      obtain ⟨hids, hbounded, hlast⟩ := ha
      have hid := hrecord.endures.id
      dsimp only at hids hbounded hlast
      rw [hsplit] at hids hbounded hlast
      refine ⟨?_, ?_, ?_⟩
      · rw [List.map_append, List.map_cons] at hids ⊢
        rw [hid]
        exact hids
      · intro r hr
        obtain rfl | hother := List.mem_cons.1 (List.perm_middle.mem_iff.1 hr)
        · rw [hid]
          exact hbounded _ (List.perm_middle.mem_iff.2 List.mem_cons_self)
        · exact hbounded r (List.perm_middle.mem_iff.2 (List.mem_cons_of_mem _ hother))
      · rw [List.length_append, List.length_cons] at hlast ⊢
        exact hlast

/-- **A patch that could not be built leaves a broken record.** -/
theorem unbuilt_broken
    {host : Host σ} {a b : Registry × Journal σ}
    (h : Course host.watched x a b)
    (ha : ∀ site, .build site none ∈ a.2.calls → a.1.HasBroken site.id) :
    ∀ site, .build site none ∈ b.2.calls → b.1.HasBroken site.id := by
  refine h.preserves
    (P := fun a => ∀ site, .build site none ∈ a.2.calls → a.1.HasBroken site.id) ?_ ha
  intro a b hstage ha site hsite
  have hold : .build site none ∈ a.2.calls → b.1.HasBroken site.id := fun hmem =>
    (ha site hmem).course (.single hstage)
  cases hstage with
  | tables => exact hold hsite
  | create s hsplit hmodule hid habsent hnew => exact hold hsite
  | prepare g hcall =>
      obtain ⟨_, calls, hcalls, hquiet⟩ := hcall.calls
      dsimp only at hsite
      rw [hcalls] at hsite
      refine hold ((List.mem_append.1 hsite).resolve_right fun hnew => ?_)
      exact absurd (hquiet _ hnew) (by simp [Call.onPatches])
  | record hsplit hmodule hrecord =>
      -- the calls of a stage are at the end, and only a failure leaves a construction without a patch
      have hlast : ∀ (calls : List Call) {j j' : Journal σ}, j'.calls = j.calls ++ calls →
          .build site none ∈ j'.calls → .build site none ∉ calls →
          .build site none ∈ j.calls := by
        intro calls j j' hcalls hmem hnot
        rw [hcalls] at hmem
        exact (List.mem_append.1 hmem).resolve_right hnot
      cases hrecord with
      | ask | lack => exact hold hsite
      | fail habsent hplace hbuild hunbuilt =>
          have hcalls := (host.watched_unbuilt hbuild hunbuilt).1
          dsimp only at hsite
          rw [hcalls] at hsite
          obtain hearlier | hnew := List.mem_append.1 hsite
          · exact hold hearlier
          · cases List.mem_singleton.1 hnew
            exact ⟨_, List.perm_middle.mem_iff.2 List.mem_cons_self, rfl, rfl⟩
      | build habsent hplace hbuild =>
          exact hold (hlast _ (host.watched_built hbuild).2.1 hsite (by simp))
      | activate => exact hold (hlast [.activate _] rfl hsite (by simp))
      | remove => exact hold (hlast _ (host.watched_ended _ _) hsite (by simp))
      | detach => exact hold (hlast [.detach _] rfl hsite (by simp))

end Course

/-! ## What is told of broken records -/

/-- The record, or what has become of it, is there and broken. -/
def Record.BrokenIn (r : Record) (g : Registry) : Prop :=
  ∃ r' ∈ g.records, r.Endures r' ∧ r'.backing = .broken

theorem Record.BrokenIn.course
    {host : Host σ} {x : Scope} {a b : Registry × σ} {r : Record}
    (h : r.BrokenIn a.1)
    (hcourse : Course host x a b) :
    r.BrokenIn b.1 := by
  obtain ⟨r1, hr1, hendures, hbroken⟩ := h
  obtain ⟨r', hr', hendures', _⟩ := hcourse.endures hr1
  exact ⟨r', hr', hendures.trans hendures', hendures'.broken hbroken⟩

/-- All that is told of a record is that its patch cannot be had. -/
structure Record.TellsFailure (host : Host σ) (g : Registry) (s : σ) (r : Record) : Prop where
  query : (g.query host s r.module).filter (·.offset = r.offset) =
    [⟨r.id, r.offset, r.size, .unrecoverableError⟩]
  apply : ∀ pin targets changes,
    (g.apply host pin r.module targets s).1 = some changes →
    List.Forall₂ (fun t change => t.offset = r.offset → change = r.answer .unrecoverableError)
      targets changes
  revert : ∀ pin offsets,
    List.Forall₂ (fun offset change => offset = r.offset → change = r.answer .unrecoverableError)
      offsets (g.revert host pin r.module offsets s).1

section Failure

variable {g : Registry} {r : Record}

/-- The record of the function is found broken. -/
theorem Record.BrokenIn.find?
    (h : r.BrokenIn g)
    (horder : InOrder g.records) :
    ∃ r', g.find? r.module r.offset = some r' ∧ r.Endures r' ∧ r'.backing = .broken := by
  obtain ⟨r', hr', hendures, hbroken⟩ := h
  exact ⟨r', (Registry.find?_eq_some_iff horder).2 ⟨hr', hendures.module, hendures.offset⟩, hendures,
    hbroken⟩

theorem Record.Endures.answer
    {r' : Record}
    (h : r.Endures r')
    (outcome : Outcome) :
    r'.answer outcome = r.answer outcome := by
  rw [Record.answer, Record.answer, h.id, h.offset, h.size]

section Requests

variable (host : Host σ)

theorem applyTarget_of_broken
    (h : r.BrokenIn g)
    (horder : InOrder g.records)
    (l : Option Lock) {t : Target}
    (ht : t.offset = r.offset)
    (s : σ) :
    (Registry.applyTarget host l r.module t g s).1 = some (r.answer .unrecoverableError) := by
  obtain ⟨r', hfind, hendures, hbroken⟩ := h.find? horder
  have hrecord : g.record r.module t = (r', g) := by
    simp only [Registry.record, ht, hfind]
  simp only [Registry.applyTarget, hrecord, if_pos hbroken, hendures.answer]

theorem applyTargets_of_broken
    (h : r.BrokenIn g)
    (horder : InOrder g.records)
    (l : Option Lock) (targets : List Target) (s : σ) {changes : List PatchChange}
    (hchanges : (Registry.applyTargets host l r.module targets g s).1 = some changes) :
    List.Forall₂ (fun t change => t.offset = r.offset → change = r.answer .unrecoverableError)
      targets changes := by
  induction targets generalizing g s changes with
  | nil =>
      cases hchanges
      exact .nil
  | cons t rest ih =>
      have hfirst := fun ht : t.offset = r.offset => applyTarget_of_broken host h horder l ht s
      have hcourse : Course host ⟨r.module, l.map (·.mapping), false, false, false⟩ (g, s)
          (Registry.applyTarget host l r.module t g s).2 :=
        Course.applyTarget host rfl (by rintro k rfl _; rfl) horder t s
      unfold Registry.applyTargets at hchanges
      split at hchanges
      next => cases hchanges
      next change g1 s1 hgiven =>
        rw [hgiven] at hcourse hfirst
        obtain ⟨more, hmore, rfl⟩ := Option.map_eq_some_iff.1 hchanges
        exact .cons (fun ht => Option.some.inj (hfirst ht))
          (ih (h.course hcourse) (hcourse.inOrder horder) s1 hmore)

theorem revertOffsets_of_broken
    (h : r.BrokenIn g)
    (horder : InOrder g.records)
    (locked : Bool) (offsets : List Nat) (s : σ) :
    List.Forall₂ (fun offset change => offset = r.offset → change = r.answer .unrecoverableError)
      offsets (Registry.revertOffsets host locked r.module offsets g s).1 := by
  induction offsets generalizing g s with
  | nil => exact .nil
  | cons offset rest ih =>
      have hcourse : Course host ⟨r.module, none, true, false, false⟩ (g, s)
          (Registry.revertOffset host locked r.module offset g s).2 :=
        Course.revertOffset host rfl rfl horder locked offset s
      refine .cons ?_ (ih (h.course hcourse) (hcourse.inOrder horder) _)
      intro hoffset
      obtain ⟨r', hfind, hendures, hbroken⟩ := h.find? horder
      simp only [hoffset, hfind, if_pos hbroken, hendures.answer]

/-- **What is told of a broken record.** -/
theorem Record.BrokenIn.tellsFailure
    (h : r.BrokenIn g)
    (horder : InOrder g.records)
    (s : σ) :
    r.TellsFailure host g s where
  query := by
    obtain ⟨r', hfind, hendures, hbroken⟩ := h.find? horder
    have hlisted : (g.query host s r.module).filter (·.offset = r.offset) =
        (g.records.filter fun x => x.module = r.module && x.offset = r.offset).map
          (·.state (host.isActive · s)) := by
      rw [Registry.query, List.filter_map, List.filter_filter]
      refine congrArg _ (List.filter_congr ?_)
      intro x _
      exact Bool.and_comm _ _
    have hfound : (g.records.find? fun x => x.module = r.module && x.offset = r.offset) = some r' :=
      hfind
    rw [hlisted, Registry.filter_function horder, hfound]
    simp only [Option.toList_some, List.map_cons, List.map_nil, Record.state, Record.status, hbroken,
      hendures.id, hendures.offset, hendures.size]
  apply := by
    intro pin targets changes hchanges
    unfold Registry.apply at hchanges
    exact applyTargets_of_broken host h horder _ targets _ hchanges
  revert := by
    intro pin offsets
    unfold Registry.revert
    exact revertOffsets_of_broken host h horder _ offsets _

end Requests

end Failure

/-! ## Batches that are abandoned -/

/-- The records of all functions but one. -/
def Registry.others (g : Registry) (module offset : Nat) : List Record :=
  g.records.filter fun r => ¬ (r.module = module ∧ r.offset = offset)

section Abandoned

variable {host : Host σ} {l : Option Lock} {module : Nat}

theorem others_put
    (g : Registry) (r : Record) :
    (g.put r).others r.module r.offset = g.others r.module r.offset := by
  unfold Registry.others Registry.put
  dsimp only
  fun_induction Registry.insertRecord r g.records with
  | case1 => simp
  | case2 head rest hbefore ih => simp only [List.filter_cons, ih]
  | case3 head rest hbefore hsame => simp [hsame]
  | case4 head rest hbefore hsame => simp [List.filter_cons]

theorem switchOn_record
    (host : Host σ) (r : Record) (s : σ) :
    (r.switchOn host s).2.1 = r := by
  unfold Record.switchOn
  split
  · split <;> rfl
  · rfl

/-- After an attempt to build it, a patch is there or the record is broken. -/
theorem instantiate_backing
    (host : Host σ) (mapping : Mapping) (allocator : Option Nat) (r : Record) (s : σ) :
    (r.instantiate host mapping allocator s).2.1.backing ≠ .absent := by
  unfold Record.instantiate
  split
  · cases allocator with
    | none => simp
    | some a =>
        dsimp only
        split
        · simp
        · simp
        · rw [switchOn_record]
          simp
  · next hbacking =>
      rw [switchOn_record]
      exact hbacking

theorem instantiate_endures
    (host : Host σ) (mapping : Mapping) (allocator : Option Nat) (r : Record) (s : σ) :
    r.Endures (r.instantiate host mapping allocator s).2.1 := by
  have hstages : ReflTransGen (Record.Stage host ⟨r.module, some mapping, false, false, false⟩) (r, s)
      (r.instantiate host mapping allocator s).2 :=
    Record.instantiate_stages host (fun _ => rfl) r s
  exact Record.endures_of_stages hstages

/-- What there is of the function that a request is for. -/
theorem record_function
    (g : Registry) (module : Nat) (t : Target) :
    ∃ r g', g.record module t = (r, g') ∧ r ∈ g'.records ∧
      r.module = module ∧ r.offset = t.offset ∧
      g'.others module t.offset = g.others module t.offset := by
  cases hfind : g.find? module t.offset with
  | some r =>
      have hkey := List.find?_some hfind
      simp only [Bool.and_eq_true, decide_eq_true_eq] at hkey
      exact ⟨r, g, by simp only [Registry.record, hfind], List.mem_of_find?_eq_some hfind, hkey.1,
        hkey.2, rfl⟩
  | none =>
      let r : Record := ⟨module, t.offset, g.lastId + 1, t.size, .dormant, .absent⟩
      refine ⟨r, { g with lastId := g.lastId + 1 }.put r, ?_, Registry.self_mem_insertRecord _ _, rfl,
        rfl, others_put { g with lastId := g.lastId + 1 } r⟩
      simp only [Registry.record, hfind, r]

/-- **A request for one function leaves the others alone.**  If the code is locked, the function has a
patch afterwards, or a broken record. -/
theorem applyTarget_reaches
    (host : Host σ) (l : Option Lock) (module : Nat) (t : Target) (g : Registry) (s : σ) :
    let g' := (Registry.applyTarget host l module t g s).2.1
    g'.others module t.offset = g.others module t.offset ∧
      (l.isSome → ∃ r ∈ g'.records,
        r.module = module ∧ r.offset = t.offset ∧ r.backing ≠ .absent) := by
  obtain ⟨r, g1, hgiven, hr, rfl, hoffset, hothers⟩ := record_function g module t
  simp only [Registry.applyTarget, hgiven]
  split
  next hbroken =>
    refine ⟨hothers, fun _ => ⟨r, hr, rfl, hoffset, ?_⟩⟩
    rw [hbroken]
    simp
  next =>
    split
    next hactive =>
      refine ⟨hothers, fun _ => ⟨r, hr, rfl, hoffset, ?_⟩⟩
      intro habsent
      cases hdesired : r.desired <;> simp [Record.status, habsent, hdesired] at hactive
    next =>
      let wanted : Record := { r with desired := .active }
      cases l with
      | none =>
          have hput := others_put g1 wanted
          rw [show wanted.offset = t.offset from hoffset] at hput
          exact ⟨hput.trans hothers, by simp⟩
      | some k =>
          have hendures := instantiate_endures host k.mapping k.allocator wanted s
          have hbacking := instantiate_backing host k.mapping k.allocator wanted s
          have hput := others_put g1 (wanted.instantiate host k.mapping k.allocator s).2.1
          rw [hendures.module, hendures.offset, hoffset] at hput
          exact ⟨hput.trans hothers, fun _ => ⟨_, Registry.self_mem_insertRecord _ _, hendures.module,
            hendures.offset.trans hoffset, hbacking⟩⟩

/-- Only where the code is locked can the host abandon a request. -/
theorem applyTarget_unlocked
    (host : Host σ) (module : Nat) (t : Target) (g : Registry) (s : σ) :
    (Registry.applyTarget host none module t g s).1 ≠ none := by
  unfold Registry.applyTarget
  obtain ⟨r, g1⟩ := g.record module t
  dsimp only
  split
  · simp
  · split <;> simp

/-- **A batch that is abandoned** is abandoned at one of its targets, after those before it. -/
theorem applyTargets_abandoned
    (host : Host σ) (l : Option Lock) (module : Nat) (targets : List Target) (g : Registry) (s : σ)
    (h : (Registry.applyTargets host l module targets g s).1 = none) :
    ∃ earlier t rest changes g1 s1, targets = earlier ++ t :: rest ∧
      Registry.applyTargets host l module earlier g s = (some changes, g1, s1) ∧
      (Registry.applyTarget host l module t g1 s1).1 = none ∧
      (Registry.applyTargets host l module targets g s).2 =
        (Registry.applyTarget host l module t g1 s1).2 := by
  induction targets generalizing g s with
  | nil => cases h
  | cons t rest ih =>
      cases hfirst : Registry.applyTarget host l module t g s with
      | mk change after =>
          obtain ⟨g1, s1⟩ := after
          simp only [Registry.applyTargets, hfirst] at h ⊢
          cases change with
          | none =>
              refine ⟨[], t, rest, [], g, s, rfl, rfl, ?_, ?_⟩
              · rw [hfirst]
              · rw [hfirst]
          | some change =>
              obtain ⟨earlier, t', rest', changes, g2, s2, rfl, hearlier, habandoned, hafter⟩ :=
                ih g1 s1 (Option.map_eq_none_iff.1 h)
              refine ⟨t :: earlier, t', rest', change :: changes, g2, s2, rfl, ?_, habandoned, hafter⟩
              simp only [Registry.applyTargets, hfirst, hearlier]
              rfl

/-- Where nothing is wanted, nothing is brought into memory. -/
theorem restoreRecords_of_unwanted
    (host : Host σ) (module : Nat) (mapping : Mapping) (allocator : Option Nat) {records : List Record}
    (h : ∀ r ∈ records, ¬ (r.module = module ∧ r.isWanted)) (s : σ) :
    Registry.restoreRecords host module mapping allocator records s = (true, records, s) := by
  induction records with
  | nil => rfl
  | cons r rest ih =>
      obtain ⟨hunwanted, hrest⟩ := List.forall_mem_cons.1 h
      simp only [Registry.restoreRecords, if_neg hunwanted, ih hrest]

/-- **A walk over the records that is abandoned** is abandoned at one of them, after those before it. -/
theorem restoreRecords_abandoned
    (host : Host σ) (module : Nat) (mapping : Mapping) (allocator : Option Nat)
    (records : List Record) (s : σ)
    (h : (Registry.restoreRecords host module mapping allocator records s).1 = false) :
    ∃ earlier r rest earlier' r' s', records = earlier ++ r :: rest ∧ r.module = module ∧
      r.isWanted = true ∧ r.Endures r' ∧ r'.backing ≠ .absent ∧
      Registry.restoreRecords host module mapping allocator earlier s = (true, earlier', s') ∧
      (Registry.restoreRecords host module mapping allocator records s).2.1 =
        earlier' ++ r' :: rest := by
  induction records generalizing s with
  | nil => cases h
  | cons r rest ih =>
      by_cases hwanted : r.module = module ∧ r.isWanted
      · have hendures := instantiate_endures host mapping allocator r s
        have hbacking := instantiate_backing host mapping allocator r s
        cases hfirst : r.instantiate host mapping allocator s with
        | mk outcome after =>
            obtain ⟨r1, s1⟩ := after
            rw [hfirst] at hendures hbacking
            simp only [Registry.restoreRecords, if_pos hwanted, hfirst] at h ⊢
            cases outcome with
            | none =>
                exact ⟨[], r, rest, [], r1, s, rfl, hwanted.1, hwanted.2, hendures, hbacking, rfl, rfl⟩
            | some outcome =>
                obtain ⟨earlier, r2, rest', earlier', r', s', rfl, hmodule, hw, hendures', hbacking',
                  hearlier, hafter⟩ := ih s1 h
                refine ⟨r :: earlier, r2, rest', r1 :: earlier', r', s', rfl, hmodule, hw, hendures',
                  hbacking', ?_, ?_⟩
                · simp only [Registry.restoreRecords, if_pos hwanted, hfirst, hearlier]
                · simp only [hafter, List.cons_append]
      · simp only [Registry.restoreRecords, if_neg hwanted] at h ⊢
        obtain ⟨earlier, r2, rest', earlier', r', s', rfl, hmodule, hw, hendures', hbacking',
          hearlier, hafter⟩ := ih s h
        refine ⟨r :: earlier, r2, rest', r :: earlier', r', s', rfl, hmodule, hw, hendures',
          hbacking', ?_, ?_⟩
        · simp only [Registry.restoreRecords, if_neg hwanted, hearlier]
        · simp only [hafter, List.cons_append]

/-- **A notification that is abandoned** keeps what it would have reached with the earlier records
alone. -/
theorem mapped_abandoned
    (host : Host σ) (module id : Nat) (mapping : Mapping) (g : Registry) (s : σ)
    (h : (g.mapped host module id mapping s).1 = false) :
    ∃ earlier r rest r', g.records = earlier ++ r :: rest ∧ r.module = module ∧ r.isWanted = true ∧
      r.Endures r' ∧ r'.backing ≠ .absent ∧
      ({ g with records := earlier }.mapped host module id mapping s).1 = true ∧
      (g.mapped host module id mapping s).2.1.records =
        ({ g with records := earlier }.mapped host module id mapping s).2.1.records ++ r' :: rest := by
  unfold Registry.mapped at h ⊢
  generalize Registry.allocatorFor host mapping s = given at h ⊢
  obtain ⟨allocator, s1⟩ := given
  unfold Registry.learn at h ⊢
  dsimp only at h ⊢
  generalize Registry.dropKnown host _ s1 = s2 at h ⊢
  split at h
  next hany =>
    rw [if_pos hany]
    generalize host.relax mapping s2 = relaxed at h ⊢
    obtain ⟨guards, s3⟩ := relaxed
    cases guards with
    | none => cases h
    | some guards =>
        obtain ⟨earlier, r, rest, earlier', r', s', hsplit, hmodule, hwanted, hendures, hbacking,
          hearlier, hafter⟩ := restoreRecords_abandoned host module mapping allocator _ s3 h
        refine ⟨earlier, r, rest, r', hsplit, hmodule, hwanted, hendures, hbacking, ?_⟩
        dsimp only
        rw [hafter]
        split
        next => simp only [hearlier, and_self]
        next hnone =>
          have hunwanted : ∀ x ∈ earlier, ¬ (x.module = module ∧ x.isWanted) := by
            intro x hx hboth
            exact hnone (List.any_eq_true.2 ⟨x, hx, by simpa using hboth⟩)
          rw [restoreRecords_of_unwanted host module mapping allocator hunwanted s3] at hearlier
          cases hearlier
          exact ⟨rfl, rfl⟩
  next => cases h

end Abandoned

/-! ## Without memory for patches -/

/-- The record is broken, unless it had its patch before. -/
def Record.GotNothing (before : Registry) (r' : Record) : Prop :=
  r'.backing = .broken ∨
    ∃ r ∈ before.records, ∃ p, r.Endures r' ∧ r.patch? = some p ∧ r'.patch? = some p

section Memory

variable {module : Nat} {mapping : Mapping}

/-- What exists after a course in which no patches are built. -/
theorem Record.gotNothing_of_course
    {host : Host σ} {x : Scope} {a b : Registry × σ} {r' : Record}
    (h : Course host x a b)
    (hmapping : x.mapping = none)
    (hr' : r' ∈ b.1.records)
    (hbacking : r'.backing ≠ .absent) :
    r'.GotNothing a.1 := by
  cases hexists : r'.backing with
  | absent => exact absurd hexists hbacking
  | broken => exact .inl hexists
  | instantiated p =>
      have hp : r'.patch? = some p := by rw [Record.patch?, hexists]
      obtain ⟨r, hr, hendures, hr0⟩ := h.origin hmapping hr' hp
      exact .inr ⟨r, hr, p, hendures, hr0, hp⟩

/-- A batch that finishes has reached all its targets. -/
theorem applyTargets_reach
    (host : Host σ) {l : Option Lock}
    (hl : l.isSome)
    (targets : List Target) {g : Registry} (s : σ)
    (horder : InOrder g.records)
    (hfinished : (Registry.applyTargets host l module targets g s).1.isSome) :
    ∀ t ∈ targets, ∃ r ∈ (Registry.applyTargets host l module targets g s).2.1.records,
      r.module = module ∧ r.offset = t.offset ∧ r.backing ≠ .absent := by
  induction targets generalizing g s with
  | nil => simp
  | cons t rest ih =>
      let x : Scope := ⟨module, l.map (·.mapping), false, false, false⟩
      have hplace : ∀ k, l = some k → k.allocator.isSome → x.mapping = some k.mapping := by
        rintro k rfl _
        rfl
      have hfirst : Course host x (g, s) (Registry.applyTarget host l module t g s).2 :=
        Course.applyTarget host rfl hplace horder t s
      have hreached := (applyTarget_reaches host l module t g s).2 hl
      have horder1 := hfirst.inOrder horder
      unfold Registry.applyTargets at hfinished ⊢
      generalize Registry.applyTarget host l module t g s = given at *
      obtain ⟨change, g1, s1⟩ := given
      cases change with
      | none => cases hfinished
      | some change =>
          have hlater : Course host x (g1, s1) (Registry.applyTargets host l module rest g1 s1).2 :=
            Course.applyTargets host rfl hplace horder1 rest s1
          have hrest := ih s1 horder1 (by simpa using hfinished)
          refine List.forall_mem_cons.2 ⟨?_, hrest⟩
          obtain ⟨r, hr, rfl, hoffset, hbacking⟩ := hreached
          obtain ⟨r', hr', hendures, hstays⟩ := hlater.endures hr
          exact ⟨r', hr', hendures.module, hendures.offset.trans hoffset, hstays rfl rfl hbacking⟩

/-- **Requests without memory** leave broken records. -/
theorem apply_without_memory
    (host : Host σ) {g : Registry} {pin : Nat → Option Mapping} {targets : List Target} {s : σ}
    {l : Lock}
    (horder : InOrder g.records)
    (hlock : (g.lock host pin module s).1 = some l)
    (hallocator : l.allocator = none)
    (hfinished : (g.apply host pin module targets s).1.isSome) :
    ∀ t ∈ targets, ∃ r ∈ (g.apply host pin module targets s).2.1.records,
      r.module = module ∧ r.offset = t.offset ∧ r.GotNothing g := by
  have hcourse : Course host ⟨module, none, false, false, false⟩ (g, s)
      (g.apply host pin module targets s).2 := by
    refine Course.apply host rfl ?_ horder targets
    intro k hk hsome
    rw [hlock] at hk
    cases hk
    simp [hallocator] at hsome
  have hlocked : (g.lock host pin module s).1.isSome := by
    rw [hlock]
    rfl
  intro t ht
  obtain ⟨r, hr, hmodule, hoffset, hbacking⟩ :
      ∃ r ∈ (g.apply host pin module targets s).2.1.records,
        r.module = module ∧ r.offset = t.offset ∧ r.backing ≠ .absent :=
    applyTargets_reach host hlocked targets _ horder hfinished t ht
  exact ⟨r, hr, hmodule, hoffset, Record.gotNothing_of_course hcourse rfl hr hbacking⟩

/-- A walk over the records that finishes has reached all that are wanted. -/
theorem restoreRecords_reaches
    (host : Host σ) (module : Nat) (mapping : Mapping) (allocator : Option Nat)
    (records : List Record) (s : σ)
    (h : (Registry.restoreRecords host module mapping allocator records s).1 = true) :
    ∀ r ∈ records, r.module = module → r.isWanted = true →
      ∃ r' ∈ (Registry.restoreRecords host module mapping allocator records s).2.1,
        r.Endures r' ∧ r'.backing ≠ .absent := by
  induction records generalizing s with
  | nil => simp
  | cons r rest ih =>
      have hlater : ∀ {r1 : Record} {rest' : List Record},
          (∀ x ∈ rest, x.module = module → x.isWanted = true →
            ∃ x' ∈ rest', x.Endures x' ∧ x'.backing ≠ .absent) →
          ∀ x ∈ rest, x.module = module → x.isWanted = true →
            ∃ x' ∈ r1 :: rest', x.Endures x' ∧ x'.backing ≠ .absent := by
        intro r1 rest' hall x hx hmodule hwanted
        obtain ⟨x', hx', hreached⟩ := hall x hx hmodule hwanted
        exact ⟨x', List.mem_cons_of_mem r1 hx', hreached⟩
      by_cases hwanted : r.module = module ∧ r.isWanted
      · have hendures := instantiate_endures host mapping allocator r s
        have hbacking := instantiate_backing host mapping allocator r s
        simp only [Registry.restoreRecords, if_pos hwanted] at h ⊢
        generalize r.instantiate host mapping allocator s = given at *
        obtain ⟨outcome, r1, s1⟩ := given
        cases outcome with
        | none => cases h
        | some outcome =>
            exact List.forall_mem_cons.2
              ⟨fun _ _ => ⟨r1, List.mem_cons_self, hendures, hbacking⟩, hlater (ih s1 h)⟩
      · simp only [Registry.restoreRecords, if_neg hwanted] at h ⊢
        exact List.forall_mem_cons.2
          ⟨fun hmodule hw => absurd ⟨hmodule, hw⟩ hwanted, hlater (ih s h)⟩

/-- **A module that is mapped without memory** near it leaves broken records, unless its code cannot be
made writable: then nothing is attempted. -/
theorem mapped_without_memory
    (host : Host σ) {g : Registry} {j : Journal σ} (id : Nat)
    (hallocator : (Registry.allocatorFor host.watched mapping j).1 = none)
    (hfinished : (g.mapped host.watched module id mapping j).1 = true) :
    (∃ calls, (g.mapped host.watched module id mapping j).2.2.calls = j.calls ++ calls ∧
      Denied calls mapping ∧
      (g.mapped host.watched module id mapping j).2.1.records = g.records) ∨
    ∀ r ∈ g.records, r.module = module → r.isWanted = true →
      ∃ r' ∈ (g.mapped host.watched module id mapping j).2.1.records,
        r.Endures r' ∧ r'.GotNothing g := by
  have hcourse : Course host.watched ⟨module, none, false, false, true⟩ (g, j)
      (g.mapped host.watched module id mapping j).2 :=
    Course.mapped host.watched rfl (by simp [hallocator]) rfl id g
  have hgot : ∀ r' ∈ (g.mapped host.watched module id mapping j).2.1.records,
      r'.backing ≠ .absent → r'.GotNothing g :=
    fun r' hr' hbacking => Record.gotNothing_of_course hcourse rfl hr' hbacking
  have hbegun := Registry.allocatorFor_prepares host.watched mapping j
  unfold Registry.mapped at hfinished hgot ⊢
  generalize Registry.allocatorFor host.watched mapping j = given at *
  obtain ⟨allocator, j1⟩ := given
  unfold Registry.learn at hfinished hgot ⊢
  have hdropped := Registry.dropKnown_prepares host.watched (g.mappings.find? (·.module = module)) j1
  dsimp only at hfinished hgot hbegun ⊢
  generalize Registry.dropKnown host.watched _ j1 = j2 at *
  obtain ⟨_, before, hbefore, _⟩ := host.calls_of_prepares (hbegun.trans hdropped)
  split at hfinished
  next hany =>
    rw [if_pos hany] at hgot ⊢
    cases hrelax : host.watched.relax mapping j2 with
    | mk guards j3 =>
        simp only [hrelax] at hfinished hgot ⊢
        cases guards with
        | none =>
            obtain ⟨calls, hcalls, hdenied⟩ := host.relax_refused hrelax
            refine .inl ⟨before ++ calls, ?_, hdenied.append_left before, rfl⟩
            rw [← List.append_assoc, ← hbefore]
            exact hcalls
        | some guards =>
            have hreach := restoreRecords_reaches host.watched module mapping allocator g.records j3
              hfinished
            refine .inr fun r hr hmodule hwanted => ?_
            obtain ⟨r', hr', hendures, hbacking⟩ := hreach r hr hmodule hwanted
            exact ⟨r', hr', hendures, hgot r' hr' hbacking⟩
  next hnone =>
    refine .inr fun r hr hmodule hwanted => ?_
    exact absurd (List.any_eq_true.2 ⟨r, hr, by simp [hmodule, hwanted]⟩) hnone

end Memory

/-! ## Runs -/

/-- What a registry can be asked for, and what it can be told. -/
inductive Order where
  /-- Patches are requested while some mappings can be held. -/
  | apply (pin : Nat → Option Mapping) (module : Nat) (targets : List Target)
  | revert (pin : Nat → Option Mapping) (module : Nat) (offsets : List Nat)
  | event (e : Event)

namespace Registry

/-- What comes of an order, whether or not the host lets it finish. -/
def serve (host : Host σ) (g : Registry) (s : σ) : Order → Registry × σ
  | .apply pin module targets => (g.apply host pin module targets s).2
  | .revert pin module offsets => (g.revert host pin module offsets s).2
  | .event e => (g.follow host e s).2

def serveAll (host : Host σ) (orders : List Order) (g : Registry) (s : σ) : Registry × σ :=
  orders.foldl (fun (g, s) order => g.serve host s order) (g, s)

/-- The module that an order is about. -/
def moduleOf (g : Registry) : Order → Option Nat
  | .apply _ module _ => some module
  | .revert _ module _ => some module
  | .event (.mapped module _ _) => some module
  | .event (.unmapped id) => g.modules.lookup id

/-- An order is served by stages that concern its module. -/
theorem serve_course
    (host : Host σ) {g : Registry}
    (horder : InOrder g.records)
    (s : σ) (order : Order) :
    ∃ x, Course host x (g, s) (g.serve host s order) ∧
      (g.moduleOf order = some x.module ∨ g.serve host s order = (g, s)) := by
  cases order with
  | apply pin module targets =>
      refine ⟨⟨module, (g.lock host pin module s).1.map (·.mapping), false, false, false⟩,
        Course.apply host rfl ?_ horder targets, .inl rfl⟩
      intro k hk _
      rw [hk]
      rfl
  | revert pin module offsets =>
      exact ⟨⟨module, none, true, false, false⟩, Course.revert host rfl rfl horder pin offsets s,
        .inl rfl⟩
  | event e =>
      cases e with
      | mapped module id mapping =>
          exact ⟨⟨module, some mapping, false, false, true⟩,
            Course.mapped host rfl (fun _ => rfl) rfl id g, .inl rfl⟩
      | unmapped id =>
          cases hknown : g.modules.lookup id with
          | none =>
              have hsame : g.serve host s (.event (.unmapped id)) = (g, s) := by
                simp only [serve, follow, unmapped, hknown]
              rw [hsame]
              exact ⟨⟨0, none, false, false, false⟩, .refl, .inr rfl⟩
          | some module =>
              exact ⟨⟨module, none, false, true, true⟩, Course.unmapped host rfl rfl rfl hknown s,
                .inl hknown⟩

/-- What every course preserves holds after every run. -/
theorem serveAll_preserves
    (host : Host σ) {P : Registry × σ → Prop}
    (hcourse : ∀ x a b, Course host x a b → P a → P b)
    (orders : List Order) {g : Registry} {s : σ}
    (horder : InOrder g.records)
    (h : P (g, s)) :
    InOrder (serveAll host orders g s).1.records ∧ P (serveAll host orders g s) := by
  induction orders generalizing g s with
  | nil => exact ⟨horder, h⟩
  | cons order rest ih =>
      obtain ⟨x, hserve, _⟩ := serve_course host horder s order
      exact ih (hserve.inOrder horder) (hcourse x _ _ hserve h)

/-- How single orders are served, also if the host abandons them. -/
structure ServesInPlace (host : Host σ) (g : Registry) (j : Journal σ) : Prop where
  /-- The records of other modules are left alone. -/
  frame : ∀ order module, g.moduleOf order ≠ some module →
    (g.serve host.watched j order).1.records.filter (·.module = module) =
      g.records.filter (·.module = module)
  /-- Requests without memory for patches leave broken records. -/
  lacking : ∀ pin module targets l, (g.lock host.watched pin module j).1 = some l →
    l.allocator = none → (g.apply host.watched pin module targets j).1.isSome →
    ∀ t ∈ targets, ∃ r ∈ (g.apply host.watched pin module targets j).2.1.records,
      r.module = module ∧ r.offset = t.offset ∧ r.GotNothing g
  /-- So do new mappings without memory near them, unless the code cannot be made writable. -/
  mapped_lacking : ∀ module id mapping,
    (allocatorFor host.watched mapping j).1 = none →
    (g.mapped host.watched module id mapping j).1 = true →
    (∃ calls, (g.mapped host.watched module id mapping j).2.2.calls = j.calls ++ calls ∧
      Denied calls mapping ∧ (g.mapped host.watched module id mapping j).2.1.records = g.records) ∨
    ∀ r ∈ g.records, r.module = module → r.isWanted = true →
      ∃ r' ∈ (g.mapped host.watched module id mapping j).2.1.records, r.Endures r' ∧ r'.GotNothing g
  /-- A batch that is abandoned at a target keeps what the earlier targets have reached. -/
  abandoned : ∀ pin module targets, (g.apply host.watched pin module targets j).1 = none →
    ∃ earlier t rest, targets = earlier ++ t :: rest ∧
      (g.apply host.watched pin module earlier j).1.isSome ∧
      (g.apply host.watched pin module targets j).2.1.others module t.offset =
        (g.apply host.watched pin module earlier j).2.1.others module t.offset ∧
      ∃ r ∈ (g.apply host.watched pin module targets j).2.1.records,
        r.module = module ∧ r.offset = t.offset ∧ r.backing ≠ .absent
  /-- A notification that is abandoned at a record keeps what the earlier records have reached, and the
  later ones as they were. -/
  mapped_abandoned : ∀ module id mapping, (g.mapped host.watched module id mapping j).1 = false →
    ∃ earlier r rest r', g.records = earlier ++ r :: rest ∧ r.module = module ∧ r.isWanted = true ∧
      r.Endures r' ∧ r'.backing ≠ .absent ∧
      ({ g with records := earlier }.mapped host.watched module id mapping j).1 = true ∧
      (g.mapped host.watched module id mapping j).2.1.records =
        ({ g with records := earlier }.mapped host.watched module id mapping j).2.1.records ++
          r' :: rest

theorem servesInPlace
    (host : Host σ) {g : Registry}
    (horder : InOrder g.records)
    (j : Journal σ) :
    g.ServesInPlace host j where
  frame := by
    intro order module hother
    obtain ⟨x, hserve, hmodule | hsame⟩ := serve_course host.watched horder j order
    · refine hserve.frame ?_
      rintro rfl
      exact hother hmodule
    · rw [hsame]
  lacking := fun pin module targets l hlock hallocator hfinished =>
    apply_without_memory host.watched horder hlock hallocator hfinished
  mapped_lacking := fun module id mapping hallocator hfinished =>
    mapped_without_memory host id hallocator hfinished
  abandoned := by
    intro pin module targets habandoned
    unfold Registry.apply at habandoned ⊢
    generalize g.lock host.watched pin module j = given at habandoned ⊢
    obtain ⟨l, j1⟩ := given
    obtain ⟨earlier, t, rest, changes, g1, j2, hsplit, hearlier, hstops, hafter⟩ :=
      applyTargets_abandoned host.watched l module targets g j1 habandoned
    obtain ⟨hothers, hreached⟩ := applyTarget_reaches host.watched l module t g1 j2
    have hlocked : l.isSome := by
      cases l with
      | none => exact absurd hstops (applyTarget_unlocked host.watched module t g1 j2)
      | some k => rfl
    refine ⟨earlier, t, rest, hsplit, ?_⟩
    dsimp only
    rw [congrArg Prod.fst hafter, hearlier]
    exact ⟨rfl, hothers, hreached hlocked⟩
  mapped_abandoned := fun module id mapping habandoned =>
    CallProfiler.Image.mapped_abandoned host.watched module id mapping g j habandoned

/-- **Records endure, and failures last.**  In every run, whatever fails or is abandoned: records have
numbers of their own, counted from one; no record is lost, and what a record is for does not change; a
patch that could not be built leaves a broken record; and all that is ever told of a broken record is
that its patch cannot be had, also after its module has gone and come back.  Each order leaves the
records of other modules alone, leaves broken records where there was no memory for patches, and keeps
what it has reached if it is abandoned. -/
theorem records_endure
    (host : Host σ) (s : σ) (orders more : List Order) :
    let now := serveAll host.watched orders {} { state := s }
    let later := serveAll host.watched more now.1 now.2
    (now.1.records.map (·.id)).Nodup ∧
      (∀ r ∈ now.1.records, 0 < r.id ∧ r.id ≤ now.1.records.length) ∧
      (∀ r ∈ now.1.records, ∃ r' ∈ later.1.records, r.Endures r') ∧
      (∀ site, .build site none ∈ now.2.calls → now.1.HasBroken site.id) ∧
      (∀ r ∈ now.1.records, r.backing = .broken → r.TellsFailure host.watched later.1 later.2) ∧
      now.1.ServesInPlace host now.2 := by
  intro now later
  have hstart : Counted {} ∧ ∀ site, Call.build site none ∈ ([] : List Call) → HasBroken {} site.id :=
    ⟨⟨List.nodup_nil, by simp, rfl⟩, by simp⟩
  obtain ⟨horder, hcounted, hunbuilt⟩ : InOrder now.1.records ∧ now.1.Counted ∧
      ∀ site, .build site none ∈ now.2.calls → now.1.HasBroken site.id :=
    serveAll_preserves host.watched
      (P := fun a => a.1.Counted ∧ ∀ site, .build site none ∈ a.2.calls → a.1.HasBroken site.id)
      (fun _ _ _ hcourse hbefore => ⟨hcourse.counted hbefore.1, hcourse.unbuilt_broken hbefore.2⟩)
      orders (g := {}) List.Pairwise.nil hstart
  have hstays : ∀ r ∈ now.1.records,
      InOrder later.1.records ∧ ∃ r' ∈ later.1.records, r.Endures r' := by
    intro r hr
    refine serveAll_preserves host.watched (P := fun a => ∃ r' ∈ a.1.records, r.Endures r') ?_ more
      horder ⟨r, hr, Record.Endures.refl r⟩
    rintro x a b hcourse ⟨r1, hr1, hendures1⟩
    obtain ⟨r', hr', hendures, _⟩ := hcourse.endures hr1
    exact ⟨r', hr', hendures1.trans hendures⟩
  refine ⟨hcounted.ids, ?_, fun r hr => (hstays r hr).2, hunbuilt, ?_, servesInPlace host horder now.2⟩
  · rw [← hcounted.last]
    exact hcounted.bounded
  · intro r hr hbroken
    obtain ⟨horder', r', hr', hendures⟩ := hstays r hr
    have hlater : r.BrokenIn later.1 := ⟨r', hr', hendures, hendures.broken hbroken⟩
    exact hlater.tellsFailure host.watched horder' later.2

/-- A batch is abandoned at its second target; then the module goes and comes back. -/
example :
    let code : Memory.Region := ⟨⟨0x401000, 0x402000⟩, ⟨true, false, true⟩⟩
    let mapping : Mapping := ⟨none, 0x400000, [code]⟩
    let host := (Rehearsal.host "a").watched
    let orders : List Order :=
      [.event (.mapped 1 7 mapping),
        .apply (fun _ => some mapping) 1 [⟨0x1100, 8⟩, ⟨0x1200, 8⟩, ⟨0x1300, 8⟩],
        .event (.unmapped 7), .event (.mapped 1 8 mapping)]
    let after := serveAll host orders {} { state := { faults := [(0x401200, .abandon)] } }
    after.1.query host after.2 1 =
      [⟨1, 0x1100, 8, .active⟩, ⟨2, 0x1200, 8, .unrecoverableError⟩] := by
  decide +kernel

end Registry

end CallProfiler.Image
