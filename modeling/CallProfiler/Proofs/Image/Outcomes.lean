import CallProfiler.Proofs.Image.Fallible
import CallProfiler.Proofs.Image.Records
import CallProfiler.Proofs.Image.Refinement

/-!
# What a request answers is what a query tells

The answer to a request is decided on the way through the request, and the state that a query tells is
derived from the record and its patch afterwards.  With a host that may fail in any pattern they agree,
with one exception: a record that was reverted while the code could not be made writable keeps its
active patch (`Record.LeftActive`), and asking for it again while that is still so reports an error.

**Main statements.**
* `Record.instantiate_settles`: one record.
* `Tended.applyTarget`, `Tended.revertOffset`: one request.
* `Tended.applyTargets`, `Tended.revertOffsets`: batches, in which a function can occur repeatedly.
* `Fleet.outcomes_tell_states`: any batch after any history.
-/

namespace CallProfiler.Image

variable {σ : Type} {host : Host σ} {fit : σ → Prop} {patches : σ → Nat → Option LivePatch}

/-! ## Answers and states -/

/-- What the answer to a request for a patch says about the state afterwards. -/
def Outcome.Applied (outcome : Outcome) (status : Status) : Prop :=
  match outcome with
  | .ok | .unchanged => status = .active
  | .activationError => status = .pending ∨ status = .activationError
  | .unrecoverableError => status = .unrecoverableError

/-- What the answer to a withdrawal says about the state afterwards, if there is a record. -/
def Outcome.Reverted (outcome : Outcome) (status : Option Status) : Prop :=
  match outcome with
  | .ok => status = some .dormant
  | .unchanged => status = some .dormant ∨ status = none
  | .unrecoverableError => status = some .unrecoverableError
  | .activationError => False

namespace Record

/-- The status of a record among the patches that are alive. -/
def statusIn (view : Nat → Option LivePatch) (r : Record) : Status :=
  r.status fun p => (view p).any (·.active)

/-- The patch of a record diverts its function. -/
def Diverts (view : Nat → Option LivePatch) (r : Record) : Prop :=
  ∃ p lp, r.patch? = some p ∧ view p = some lp ∧ lp.active = true

/-- Nothing is asked for any more, but the patch diverts its function still. -/
def LeftActive (view : Nat → Option LivePatch) (r : Record) : Prop :=
  r.desired = .dormant ∧ r.Diverts view

theorem status_eq_statusIn
    (hhost : host.Fallible fit patches)
    {s : σ}
    (hs : fit s)
    (r : Record) :
    r.status (host.isActive · s) = r.statusIn (patches s) := by
  unfold statusIn
  congr 1
  funext p
  exact hhost.isActive p hs

/-- Only the patch of the record matters. -/
theorem statusIn_congr
    {view view' : Nat → Option LivePatch} {r : Record}
    (hview : ∀ p, r.patch? = some p → view' p = view p) :
    r.statusIn view' = r.statusIn view := by
  unfold statusIn status
  cases hbacking : r.backing with
  | absent =>
      cases r.desired <;> rfl
  | broken =>
      rfl
  | instantiated p =>
      have hp := hview p (by rw [patch?, hbacking])
      cases r.desired with
      | dormant => rfl
      | active => simp only [hp]

theorem LeftActive.congr
    {view view' : Nat → Option LivePatch} {r : Record}
    (h : r.LeftActive view)
    (hview : ∀ p, r.patch? = some p → view' p = view p) :
    r.LeftActive view' := by
  obtain ⟨hdormant, p, lp, hp, hlive, hactive⟩ := h
  exact ⟨hdormant, p, lp, hp, (hview p hp).trans hlive, hactive⟩

theorem backing_of_patch
    {r : Record} {p : Nat}
    (hp : r.patch? = some p) :
    r.backing = .instantiated p := by
  cases hbacking : r.backing with
  | absent => simp [patch?, hbacking] at hp
  | broken => simp [patch?, hbacking] at hp
  | instantiated q =>
      simp only [patch?, hbacking, Option.some.injEq] at hp
      rw [hp]

theorem statusIn_of_dormant
    {r : Record}
    (hdesired : r.desired = .dormant)
    (hbacking : r.backing ≠ .broken)
    (view : Nat → Option LivePatch) :
    r.statusIn view = .dormant := by
  unfold statusIn status
  rw [hdesired]
  cases h : r.backing with
  | broken => exact absurd h hbacking
  | absent => rfl
  | instantiated p => rfl

/-- What is asked for is pending, has failed or is active, by the patch alone. -/
theorem statusIn_of_active
    {r : Record}
    (hdesired : r.desired = .active)
    (hbacking : r.backing ≠ .broken)
    (view : Nat → Option LivePatch) :
    (r.statusIn view = .pending ∨ r.statusIn view = .activationError) ∨
      (r.statusIn view = .active ∧ r.Diverts view) := by
  unfold statusIn status
  rw [hdesired]
  cases h : r.backing with
  | broken =>
      exact absurd h hbacking
  | absent =>
      exact .inl (.inl rfl)
  | instantiated p =>
      cases hlive : view p with
      | none =>
          left
          right
          simp [hlive]
      | some lp =>
          cases hactive : lp.active with
          | false =>
              left
              right
              simp [hlive, hactive]
          | true =>
              right
              refine ⟨by simp [hlive, hactive], p, lp, ?_, hlive, hactive⟩
              rw [patch?, h]

/-- A patch that diverts its function, although the record is not active, is left over. -/
theorem Diverts.leftActive
    {view : Nat → Option LivePatch} {r : Record}
    (h : r.Diverts view)
    (hstatus : r.statusIn view ≠ .active) :
    r.LeftActive view := by
  refine ⟨?_, h⟩
  obtain ⟨p, lp, hp, hlive, hactive⟩ := h
  cases hdesired : r.desired with
  | dormant =>
      rfl
  | active =>
      have hbacking := backing_of_patch hp
      simp [statusIn, status, hbacking, hdesired, hlive, hactive] at hstatus

/-! ## One record -/

/-- Switching the patch of a record on. -/
theorem switchOn_settles
    (hhost : host.Fallible fit patches)
    {r : Record} {p : Nat} {lp : LivePatch} {s : σ}
    (hs : fit s)
    (hdesired : r.desired = .active)
    (hbacking : r.backing = .instantiated p)
    (hlive : patches s p = some lp) :
    ∃ outcome s', r.switchOn host s = (outcome, r, s') ∧ fit s' ∧
      Trades (patches s) (patches s') (some p) (some p) ∧
      ∀ o, outcome = some o → o.Applied (r.statusIn (patches s')) ∨
        (o = .activationError ∧ r.statusIn (patches s') = .active ∧ lp.active = true) := by
  obtain ⟨hs', active, hview, hfailed⟩ := hhost.activate p hs hlive
  have htrades := Trades.change (patches s) p { lp with active }
  rw [← hview] at htrades
  have hstatus : r.statusIn (patches (host.activate p s).2) =
      if active then .active else .activationError := by
    simp only [statusIn, status, hbacking, hdesired, hview, Function.update_self, Option.any_some]
  have hisActive : host.isActive p (host.activate p s).2 = active := by
    rw [hhost.isActive p hs', hview, Function.update_self]
    rfl
  cases hactivate : host.activate p s with
  | mk switched s1 =>
      rw [hactivate] at hs' htrades hstatus hisActive hfailed
      cases switched with
      | abandoned =>
          refine ⟨none, s1, ?_, hs', htrades, ?_⟩
          · simp only [switchOn, hbacking, hactivate]
          · intro o ho
            cases ho
      | failed =>
          refine ⟨some .activationError, s1, ?_, hs', htrades, ?_⟩
          · simp only [switchOn, hbacking, hactivate]
          · intro o ho
            cases ho
            cases active with
            | true =>
                exact .inr ⟨rfl, hstatus, hfailed rfl rfl⟩
            | false =>
                exact .inl (.inr hstatus)
      | done =>
          refine ⟨some (if active then .ok else .activationError), s1, ?_, hs', htrades, ?_⟩
          · simp only [switchOn, hbacking, hactivate, hisActive]
          · intro o ho
            cases ho
            left
            cases active with
            | true =>
                exact hstatus
            | false =>
                exact .inr hstatus

/-- Building the patch of a record if there is none, and switching it on. -/
theorem instantiate_settles
    (hhost : host.Fallible fit patches)
    (mapping : Mapping) (allocator : Option Nat) {r : Record} {others : List Nat} {s : σ}
    (hs : fit s)
    (hdesired : r.desired = .active)
    (hown : Owns (patches s) (r.patch?.toList ++ others)) :
    ∃ outcome r' s', r.instantiate host mapping allocator s = (outcome, r', s') ∧ fit s' ∧
      r'.request = r.request ∧
      Trades (patches s) (patches s') r.patch? r'.patch? ∧
      ∀ o, outcome = some o → o.Applied (r'.statusIn (patches s')) ∨
        (o = .activationError ∧ r'.statusIn (patches s') = .active ∧ r.Diverts (patches s)) := by
  cases hbacking : r.backing with
  | broken =>
      refine ⟨some .unrecoverableError, r, s, ?_, hs, rfl, Trades.keep rfl _, ?_⟩
      · simp only [instantiate, hbacking, switchOn]
      · intro o ho
        cases ho
        left
        simp [Outcome.Applied, statusIn, status, hbacking]
  | instantiated p =>
      have hmine : r.patch? = some p := by
        simp [patch?, hbacking]
      rw [hmine] at hown ⊢
      obtain ⟨lp, hlive⟩ := Option.isSome_iff_exists.1 ((hown.alive p).2 List.mem_cons_self)
      obtain ⟨outcome, s', hswitch, hs', htrades, hanswer⟩ :=
        switchOn_settles hhost hs hdesired hbacking hlive
      refine ⟨outcome, r, s', ?_, hs', rfl, hmine.symm ▸ htrades, ?_⟩
      · simp only [instantiate, hbacking, hswitch]
      · intro o ho
        refine (hanswer o ho).imp_right ?_
        rintro ⟨herror, hstatus, hactive⟩
        exact ⟨herror, hstatus, p, lp, hmine, hlive, hactive⟩
  | absent =>
      have hmine : r.patch? = none := by
        simp [patch?, hbacking]
      let broken : Record := { r with backing := .broken }
      have hbroken : ∀ {s1 : σ} (outcome : Option Outcome), patches s1 = patches s → fit s1 →
          (∀ o, outcome = some o → o = .unrecoverableError) →
          r.instantiate host mapping allocator s = (outcome, broken, s1) →
          ∃ outcome r' s', r.instantiate host mapping allocator s = (outcome, r', s') ∧ fit s' ∧
            r'.request = r.request ∧ Trades (patches s) (patches s') r.patch? r'.patch? ∧
            ∀ o, outcome = some o → o.Applied (r'.statusIn (patches s')) ∨
              (o = .activationError ∧ r'.statusIn (patches s') = .active ∧
                r.Diverts (patches s)) := by
        intro s1 outcome hview hs1 houtcome hrun
        refine ⟨outcome, broken, s1, hrun, hs1, rfl, ?_, ?_⟩
        · rw [hmine]
          exact Trades.keep hview none
        · intro o ho
          left
          rw [houtcome o ho]
          rfl
      cases allocator with
      | none =>
          refine hbroken (some .unrecoverableError) rfl hs ?_ ?_
          · intro o ho
            exact (Option.some.inj ho).symm
          · simp only [instantiate, hbacking]
            rfl
      | some a =>
          let site : Site := ⟨mapping.addressOf r.offset, r.size, r.id⟩
          obtain ⟨hs1, hview1⟩ := hhost.build site a hs
          cases hbuild : host.build site a s with
          | mk built s1 =>
              rw [hbuild] at hs1 hview1
              cases built with
              | abandoned =>
                  refine hbroken none hview1 hs1 ?_ ?_
                  · intro o ho
                    cases ho
                  · simp only [instantiate, hbacking, site] at hbuild ⊢
                    rw [hbuild]
              | refused =>
                  refine hbroken (some .unrecoverableError) hview1 hs1 ?_ ?_
                  · intro o ho
                    exact (Option.some.inj ho).symm
                  · simp only [instantiate, hbacking, site] at hbuild ⊢
                    rw [hbuild]
              | built p =>
                  obtain ⟨hfresh, hview1⟩ := hview1
                  have hlive : patches s1 p = some ⟨site.address, false⟩ := by
                    rw [hview1, Function.update_self]
                  let built : Record := { r with backing := .instantiated p }
                  obtain ⟨outcome, s', hswitch, hs', htrades, hanswer⟩ :=
                    switchOn_settles (r := built) hhost hs1 hdesired rfl hlive
                  have hgain := Trades.gain hfresh ⟨site.address, false⟩
                  rw [← hview1] at hgain
                  refine ⟨outcome, built, s', ?_, hs', rfl, ?_, ?_⟩
                  · simp only [instantiate, hbacking, site] at hbuild ⊢
                    rw [hbuild]
                    exact hswitch
                  · rw [hmine]
                    exact hgain.trans htrades
                  · intro o ho
                    refine (hanswer o ho).imp_right ?_
                    rintro ⟨_, _, hactive⟩
                    cases hactive

end Record

/-! ## One request -/

/-- Each record has its own place, each patch its own record, and each record's patch is alive. -/
structure Tended
    (fit : σ → Prop) (patches : σ → Nat → Option LivePatch) (g : Registry) (s : σ) : Prop where
  fit : fit s
  ordered : InOrder g.records
  owned : Owns (patches s) (patchesOf g.records)

/-- Nothing has happened to a function. -/
structure Untouched
    (view view' : Nat → Option LivePatch) (g g' : Registry) (module offset : Nat) : Prop where
  record : g'.find? module offset = g.find? module offset
  patch : ∀ r p, g.find? module offset = some r → r.patch? = some p → view' p = view p

namespace Untouched

variable {view view' view'' : Nat → Option LivePatch} {g g' g'' : Registry} {module offset : Nat}

theorem refl
    (view : Nat → Option LivePatch) (g : Registry) (module offset : Nat) :
    Untouched view view g g module offset :=
  ⟨rfl, fun _ _ _ _ => rfl⟩

theorem trans
    (h : Untouched view view' g g' module offset)
    (h' : Untouched view' view'' g' g'' module offset) :
    Untouched view view'' g g'' module offset where
  record := h'.record.trans h.record
  patch := by
    intro r p hr hp
    exact (h'.patch r p (h.record.trans hr) hp).trans (h.patch r p hr hp)

theorem statusIn_eq
    (h : Untouched view view' g g' module offset) :
    (g'.find? module offset).map (·.statusIn view') =
      (g.find? module offset).map (·.statusIn view) := by
  rw [h.record]
  cases hfind : g.find? module offset with
  | none =>
      rfl
  | some r =>
      exact congrArg some (Record.statusIn_congr fun p hp => h.patch r p hfind hp)

/-- What later answers are not about is untouched by what they answer. -/
theorem of_later_changes
    {changes : List PatchChange} {offsets : List Nat}
    (hothers : ∀ m o, ¬ (m = module ∧ o ∈ offsets) → Untouched view view' g g' m o)
    (hoffsets : changes.map (·.offset) = offsets)
    (hlast : ∀ x ∈ changes, x.offset ≠ offset) :
    Untouched view view' g g' module offset := by
  refine hothers module offset ?_
  rintro ⟨_, hmem⟩
  rw [← hoffsets] at hmem
  obtain ⟨x, hx, hsame⟩ := List.mem_map.1 hmem
  exact hlast x hx hsame

/-- A patch that is left active now was left active before. -/
theorem leftActive
    (h : Untouched view view' g g' module offset)
    {r : Record}
    (hfind : g'.find? module offset = some r)
    (hleft : r.LeftActive view') :
    g.find? module offset = some r ∧ r.LeftActive view := by
  have hbefore := h.record.symm.trans hfind
  exact ⟨hbefore, hleft.congr fun p hp => (h.patch r p hbefore hp).symm⟩

end Untouched

namespace Tended

variable {g : Registry} {s s' : σ}

theorem of_keeps
    (h : Tended fit patches g s)
    (hkeeps : fit s' ∧ patches s' = patches s) :
    Tended fit patches g s' where
  fit := hkeeps.1
  ordered := h.ordered
  owned := by
    rw [hkeeps.2]
    exact h.owned

/-- Putting a record in its place touches no other function, if its patch is in order. -/
theorem put
    (h : Tended fit patches g s)
    {r : Record}
    (hs' : fit s')
    (htrades : Trades (patches s) (patches s')
      ((g.find? r.module r.offset).bind Record.patch?) r.patch?) :
    Tended fit patches (g.put r) s' ∧
      (g.put r).find? r.module r.offset = some r ∧
      ∀ module offset, ¬ (module = r.module ∧ offset = r.offset) →
        Untouched (patches s) (patches s') g (g.put r) module offset := by
  have hmem : ∀ x, x ∈ (g.put r).records ↔ x = r ∨ (x ∈ g.records ∧ ¬ r.SameFunction x) :=
    fun x => Registry.mem_insertRecord h.ordered
  have hordered : InOrder (g.put r).records := Registry.inOrder_insertRecord r h.ordered
  obtain ⟨others, hbefore, hafter, hothers⟩ := Registry.patchesOf_insertRecord r h.ordered
  obtain ⟨howned, hframe⟩ := htrades others (h.owned.perm hbefore)
  refine ⟨⟨hs', hordered, howned.perm hafter.symm⟩, ?_, ?_⟩
  · exact (Registry.find?_eq_some_iff hordered).2 ⟨(hmem r).2 (.inl rfl), rfl, rfl⟩
  · intro module offset hother
    have hsame : ∀ x, (g.put r).find? module offset = some x ↔
        g.find? module offset = some x := by
      intro x
      rw [Registry.find?_eq_some_iff hordered, Registry.find?_eq_some_iff h.ordered, hmem]
      constructor
      · rintro ⟨rfl | ⟨hx, _⟩, hmodule, hoffset⟩
        · exact absurd ⟨hmodule.symm, hoffset.symm⟩ hother
        · exact ⟨hx, hmodule, hoffset⟩
      · rintro ⟨hx, hmodule, hoffset⟩
        refine ⟨.inr ⟨hx, ?_⟩, hmodule, hoffset⟩
        rintro ⟨hmodule', hoffset'⟩
        exact hother ⟨hmodule.symm.trans hmodule'.symm, hoffset.symm.trans hoffset'.symm⟩
    refine ⟨Option.ext hsame, ?_⟩
    intro x p hfind hp
    obtain ⟨hx, hmodule, hoffset⟩ := (Registry.find?_eq_some_iff h.ordered).1 hfind
    refine hframe p (hothers x hx ?_ p hp)
    rintro ⟨hmodule', hoffset'⟩
    exact hother ⟨hmodule.symm.trans hmodule'.symm, hoffset.symm.trans hoffset'.symm⟩

/-- The record of a function is there from the first request on, and new ones have no patch. -/
theorem record
    (h : Tended fit patches g s)
    (module : Nat) (t : Target) :
    ∃ r g', g.record module t = (r, g') ∧ r.module = module ∧ r.offset = t.offset ∧
      g'.find? module t.offset = some r ∧ Tended fit patches g' s ∧
      (∀ m o, ¬ (m = module ∧ o = t.offset) → Untouched (patches s) (patches s) g g' m o) ∧
      (r.Diverts (patches s) → g.find? module t.offset = some r) := by
  cases hfind : g.find? module t.offset with
  | some r =>
      obtain ⟨_, hmodule, hoffset⟩ := (Registry.find?_eq_some_iff h.ordered).1 hfind
      refine ⟨r, g, ?_, hmodule, hoffset, hfind, h, ?_, fun _ => rfl⟩
      · simp only [Registry.record, hfind]
      · intro m o _
        exact Untouched.refl _ _ m o
  | none =>
      let r : Record := ⟨module, t.offset, g.lastId + 1, t.size, .dormant, .absent⟩
      let g' : Registry := { g with lastId := g.lastId + 1 }
      have hg' : Tended fit patches g' s := ⟨h.fit, h.ordered, h.owned⟩
      have hold : (g'.find? r.module r.offset).bind Record.patch? = none := by
        rw [show g'.find? r.module r.offset = none from hfind]
        rfl
      obtain ⟨hput, hfound, hothers⟩ := hg'.put (r := r) h.fit (hold ▸ Trades.keep rfl none)
      refine ⟨r, g'.put r, ?_, rfl, rfl, hfound, hput, ?_, ?_⟩
      · simp only [Registry.record, hfind]
        rfl
      · intro m o hother
        have huntouched := hothers m o hother
        exact ⟨huntouched.record, huntouched.patch⟩
      · rintro ⟨p, lp, hp, _⟩
        cases hp

/-- A request for a patch touches no other function, leaves no patch behind that nobody asks for, and
its answer tells the state. -/
theorem applyTarget
    (hhost : host.Fallible fit patches)
    (h : Tended fit patches g s)
    (l : Option Lock) (module : Nat) (t : Target) :
    ∃ answer g' s', Registry.applyTarget host l module t g s = (answer, g', s') ∧
      Tended fit patches g' s' ∧
      (∀ m o, ¬ (m = module ∧ o = t.offset) → Untouched (patches s) (patches s') g g' m o) ∧
      ∃ r, g'.find? module t.offset = some r ∧ ¬ r.LeftActive (patches s') ∧
        ∀ change, answer = some change → change.offset = t.offset ∧
          (change.outcome.Applied (r.statusIn (patches s')) ∨
            (change.outcome = .activationError ∧ r.statusIn (patches s') = .active ∧
              ∃ x, g.find? module t.offset = some x ∧ x.LeftActive (patches s))) := by
  obtain ⟨r, g1, hrecord, hmodule, hoffset, hfind, h1, hothers, hdiverts⟩ := h.record module t
  have hstatus := Record.status_eq_statusIn hhost h.fit r
  simp only [Registry.applyTarget, hrecord]
  by_cases hbroken : r.backing = .broken
  · rw [if_pos hbroken]
    refine ⟨_, g1, s, rfl, h1, hothers, r, hfind, ?_, ?_⟩
    · rintro ⟨_, p, lp, hp, _⟩
      simp [Record.patch?, hbroken] at hp
    · intro change hchange
      cases hchange
      refine ⟨hoffset, .inl ?_⟩
      simp [Record.answer, Outcome.Applied, Record.statusIn, Record.status, hbroken]
  · rw [if_neg hbroken]
    by_cases hactive : r.status (host.isActive · s) = .active
    · rw [if_pos hactive]
      rw [hstatus] at hactive
      refine ⟨_, g1, s, rfl, h1, hothers, r, hfind, ?_, ?_⟩
      · rintro ⟨hdormant, _⟩
        rw [Record.statusIn_of_dormant hdormant hbroken] at hactive
        cases hactive
      · intro change hchange
        cases hchange
        exact ⟨hoffset, .inl hactive⟩
    · rw [if_neg hactive]
      rw [hstatus] at hactive
      let wanted : Record := { r with desired := .active }
      -- whatever is done for the record, it is put in its place and the request is kept
      have hfinish : ∀ (r' : Record) (outcome : Option Outcome) {s1 : σ}, fit s1 →
          r'.request = wanted.request →
          Trades (patches s) (patches s1) r.patch? r'.patch? →
          (∀ o, outcome = some o → o.Applied (r'.statusIn (patches s1)) ∨
            (o = .activationError ∧ r'.statusIn (patches s1) = .active ∧
              r.Diverts (patches s))) →
          Tended fit patches (g1.put r') s1 ∧
          (∀ m o, ¬ (m = module ∧ o = t.offset) →
            Untouched (patches s) (patches s1) g (g1.put r') m o) ∧
          ∃ x, (g1.put r').find? module t.offset = some x ∧ ¬ x.LeftActive (patches s1) ∧
            ∀ change, outcome.map r'.answer = some change → change.offset = t.offset ∧
              (change.outcome.Applied (x.statusIn (patches s1)) ∨
                (change.outcome = .activationError ∧ x.statusIn (patches s1) = .active ∧
                  ∃ x, g.find? module t.offset = some x ∧ x.LeftActive (patches s))) := by
        intro r' outcome s1 hs1 hrequest htrades hanswer
        have hmodule' : r'.module = module := (congrArg Record.module hrequest).trans hmodule
        have hoffset' : r'.offset = t.offset := (congrArg Record.offset hrequest).trans hoffset
        have hdesired' : r'.desired = .active := congrArg Record.desired hrequest
        have hold : (g1.find? r'.module r'.offset).bind Record.patch? = r.patch? := by
          rw [hmodule', hoffset', hfind]
          rfl
        obtain ⟨hput, hfound, hothers1⟩ := h1.put (r := r') hs1 (hold ▸ htrades)
        rw [hmodule', hoffset'] at hfound hothers1
        refine ⟨hput, fun m o hother => (hothers m o hother).trans (hothers1 m o hother), r', hfound,
          ?_, ?_⟩
        · rintro ⟨hdormant, _⟩
          rw [hdesired'] at hdormant
          cases hdormant
        · intro change hchange
          obtain ⟨o, ho, rfl⟩ := Option.map_eq_some_iff.1 hchange
          refine ⟨hoffset', (hanswer o ho).imp_right ?_⟩
          rintro ⟨herror, hdone, hleft⟩
          exact ⟨herror, hdone, r, hdiverts hleft, hleft.leftActive hactive⟩
      cases l with
      | none =>
          -- the code cannot be made writable: only the request is noted
          refine ⟨_, _, s, rfl, hfinish wanted (some .activationError) h.fit rfl
            (Trades.keep rfl r.patch?) ?_⟩
          intro o ho
          cases ho
          refine (wanted.statusIn_of_active rfl hbroken (patches s)).imp_right ?_
          exact fun hdone => ⟨rfl, hdone⟩
      | some l =>
          have hown : ∃ others, Owns (patches s) (wanted.patch?.toList ++ others) := by
            obtain ⟨others, hbefore, _⟩ := Registry.patchesOf_insertRecord r h1.ordered
            rw [hmodule, hoffset, hfind] at hbefore
            exact ⟨others, h1.owned.perm hbefore⟩
          obtain ⟨others, hown⟩ := hown
          obtain ⟨outcome, r', s', hinstantiate, hs', hrequest, htrades, hanswer⟩ :=
            wanted.instantiate_settles hhost l.mapping l.allocator h.fit rfl hown
          refine ⟨outcome.map r'.answer, g1.put r', s', ?_,
            hfinish r' outcome hs' hrequest htrades hanswer⟩
          simp only [wanted] at hinstantiate
          simp only [hinstantiate]

/-- The withdrawal of a request touches no other function, and its answer tells the state. -/
theorem revertOffset
    (hhost : host.Fallible fit patches)
    (h : Tended fit patches g s)
    (locked : Bool) (module offset : Nat) :
    ∃ change g' s', Registry.revertOffset host locked module offset g s = (change, g', s') ∧
      Tended fit patches g' s' ∧
      (∀ m o, ¬ (m = module ∧ o = offset) → Untouched (patches s) (patches s') g g' m o) ∧
      change.offset = offset ∧
      change.outcome.Reverted ((g'.find? module offset).map (·.statusIn (patches s'))) := by
  unfold Registry.revertOffset
  have hsame : ∀ m o, ¬ (m = module ∧ o = offset) → Untouched (patches s) (patches s) g g m o :=
    fun m o _ => Untouched.refl _ _ m o
  cases hfind : g.find? module offset with
  | none =>
      refine ⟨_, g, s, rfl, h, hsame, rfl, .inr ?_⟩
      rw [hfind]
      rfl
  | some r =>
      obtain ⟨_, hmodule, hoffset⟩ := (Registry.find?_eq_some_iff h.ordered).1 hfind
      simp only
      by_cases hbroken : r.backing = .broken
      · rw [if_pos hbroken]
        refine ⟨_, g, s, rfl, h, hsame, hoffset, ?_⟩
        rw [hfind]
        simp [Record.answer, Outcome.Reverted, Record.statusIn, Record.status, hbroken]
      · rw [if_neg hbroken]
        by_cases hdormant : r.desired = .dormant
        · rw [if_pos hdormant]
          refine ⟨_, g, s, rfl, h, hsame, hoffset, .inl ?_⟩
          rw [hfind, Option.map_some, Record.statusIn_of_dormant hdormant hbroken]
        · rw [if_neg hdormant]
          have hfinish : ∀ (r' : Record) {s1 : σ}, fit s1 → r'.module = r.module →
              r'.offset = r.offset → r'.desired = .dormant → r'.backing ≠ .broken →
              Trades (patches s) (patches s1) r.patch? r'.patch? →
              Tended fit patches (g.put r') s1 ∧
              (∀ m o, ¬ (m = module ∧ o = offset) →
                Untouched (patches s) (patches s1) g (g.put r') m o) ∧
              (r'.answer .ok).offset = offset ∧
              Outcome.ok.Reverted
                (((g.put r').find? module offset).map (·.statusIn (patches s1))) := by
            intro r' s1 hs1 hmodule' hoffset' hdesired' hbacking' htrades
            have hold : (g.find? r'.module r'.offset).bind Record.patch? = r.patch? := by
              rw [hmodule', hoffset', hmodule, hoffset, hfind]
              rfl
            obtain ⟨hput, hfound, hothers⟩ := h.put (r := r') hs1 (hold ▸ htrades)
            rw [hmodule', hoffset', hmodule, hoffset] at hfound hothers
            refine ⟨hput, hothers, hoffset'.trans hoffset, ?_⟩
            rw [hfound, Option.map_some, Record.statusIn_of_dormant hdesired' hbacking']
            rfl
          let bare : Record := { r with desired := .dormant, backing := .absent }
          have hbare : bare.backing ≠ .broken := by
            intro hsame
            cases hsame
          cases hbacking : r.backing with
          | broken =>
              exact absurd hbacking hbroken
          | absent =>
              have hmine : r.patch? = none := by
                simp [Record.patch?, hbacking]
              refine ⟨_, g.put bare, s, ?_, hfinish bare h.fit rfl rfl rfl hbare
                (hmine ▸ Trades.keep rfl none)⟩
              simp only [Record.takePatch]
              rfl
          | instantiated p =>
              have hmine : r.patch? = some p := by
                simp [Record.patch?, hbacking]
              cases locked with
              | false =>
                  let unwanted : Record := { r with desired := .dormant, backing := .instantiated p }
                  have hunwanted : unwanted.backing ≠ .broken := by
                    intro hsame
                    cases hsame
                  refine ⟨_, g.put unwanted, s, ?_, hfinish unwanted h.fit rfl rfl rfl hunwanted
                    (hmine ▸ Trades.keep rfl (some p))⟩
                  simp only [Record.takePatch]
                  rfl
              | true =>
                  obtain ⟨hr, _, _⟩ := (Registry.find?_eq_some_iff h.ordered).1 hfind
                  obtain ⟨lp, hlive⟩ :=
                    Option.isSome_iff_exists.1 ((h.owned.alive p).2 (mem_patchesOf hr hmine))
                  obtain ⟨hs', htrades⟩ := hhost.end_trades h.fit hlive
                  refine ⟨_, g.put bare, host.remove p (host.revert p s), ?_,
                    hfinish bare hs' rfl rfl rfl hbare (hmine ▸ htrades)⟩
                  simp only [Record.takePatch]
                  rfl

/-! ## Batches -/

/-- A batch of requests: the last answer for each function tells its state. -/
theorem applyTargets
    (hhost : host.Fallible fit patches)
    (l : Option Lock) (module : Nat) (targets : List Target)
    (h : Tended fit patches g s) :
    ∃ answer g' s', Registry.applyTargets host l module targets g s = (answer, g', s') ∧
      Tended fit patches g' s' ∧
      (∀ m o, ¬ (m = module ∧ o ∈ targets.map (·.offset)) →
        Untouched (patches s) (patches s') g g' m o) ∧
      ∀ changes, answer = some changes → changes.map (·.offset) = targets.map (·.offset) ∧
        ∀ before c after, changes = before ++ c :: after → (∀ x ∈ after, x.offset ≠ c.offset) →
          ∃ r, g'.find? module c.offset = some r ∧
            (c.outcome.Applied (r.statusIn (patches s')) ∨
              (c.outcome = .activationError ∧ r.statusIn (patches s') = .active ∧
                ∃ x, g.find? module c.offset = some x ∧ x.LeftActive (patches s))) := by
  induction targets generalizing g s with
  | nil =>
      refine ⟨some [], g, s, rfl, h, fun m o _ => Untouched.refl _ _ m o, ?_⟩
      intro changes hchanges
      cases hchanges
      refine ⟨rfl, ?_⟩
      intro before c after heq
      cases before <;> cases heq
  | cons t rest ih =>
      obtain ⟨answer, g1, s1, happly, h1, hothers1, r1, hfind1, hclean, hanswer⟩ :=
        h.applyTarget hhost l module t
      have hfirst : ∀ {m o}, ¬ (m = module ∧ o ∈ (t :: rest).map (·.offset)) →
          Untouched (patches s) (patches s1) g g1 m o := by
        intro m o hother
        refine hothers1 m o ?_
        rintro ⟨hm, ho⟩
        exact hother ⟨hm, ho ▸ List.mem_cons_self⟩
      cases answer with
      | none =>
          refine ⟨none, g1, s1, ?_, h1, fun m o hother => hfirst hother, ?_⟩
          · simp only [Registry.applyTargets, happly]
          · intro changes hchanges
            cases hchanges
      | some change =>
          obtain ⟨more, g', s', hrest, h', hothers', hmore⟩ := ih h1
          obtain ⟨hoffset, hchange⟩ := hanswer change rfl
          refine ⟨more.map (change :: ·), g', s', ?_, h', ?_, ?_⟩
          · simp only [Registry.applyTargets, happly, hrest]
          · intro m o hother
            refine (hfirst hother).trans (hothers' m o ?_)
            rintro ⟨hm, ho⟩
            exact hother ⟨hm, List.mem_cons_of_mem _ ho⟩
          · intro changes hchanges
            obtain ⟨more, rfl, rfl⟩ := Option.map_eq_some_iff.1 hchanges
            obtain ⟨hoffsets, hlater⟩ := hmore more rfl
            refine ⟨by rw [List.map_cons, List.map_cons, hoffset, hoffsets], ?_⟩
            intro before c after heq hlast
            cases before with
            | nil =>
                -- the first change is the last one for its function
                cases heq
                have huntouched := Untouched.of_later_changes hothers' hoffsets hlast
                rw [← hoffset] at hfind1 hchange
                have hstatus := huntouched.statusIn_eq
                rw [huntouched.record, hfind1] at hstatus
                have hstatus : r1.statusIn (patches s') = r1.statusIn (patches s1) :=
                  Option.some.inj hstatus
                refine ⟨r1, huntouched.record.trans hfind1, ?_⟩
                rw [hstatus]
                exact hchange
            | cons first before =>
                cases heq
                obtain ⟨r, hfind, hagrees⟩ := hlater before c after rfl hlast
                refine ⟨r, hfind, hagrees.imp_right ?_⟩
                rintro ⟨herror, hactive, x, hx, hleft⟩
                refine ⟨herror, hactive, x, ?_⟩
                by_cases hsame : c.offset = t.offset
                · -- a request of the same batch leaves no patch behind that nobody asks for
                  rw [hsame, hfind1] at hx
                  cases hx
                  exact absurd hleft hclean
                · have huntouched := hothers1 module c.offset fun hboth => hsame hboth.2
                  exact huntouched.leftActive hx hleft

/-- A batch of withdrawals: the last answer for each function tells its state. -/
theorem revertOffsets
    (hhost : host.Fallible fit patches)
    (locked : Bool) (module : Nat) (offsets : List Nat)
    (h : Tended fit patches g s) :
    ∃ changes g' s', Registry.revertOffsets host locked module offsets g s = (changes, g', s') ∧
      Tended fit patches g' s' ∧
      (∀ m o, ¬ (m = module ∧ o ∈ offsets) → Untouched (patches s) (patches s') g g' m o) ∧
      changes.map (·.offset) = offsets ∧
      ∀ before c after, changes = before ++ c :: after → (∀ x ∈ after, x.offset ≠ c.offset) →
        c.outcome.Reverted ((g'.find? module c.offset).map (·.statusIn (patches s'))) := by
  induction offsets generalizing g s with
  | nil =>
      refine ⟨[], g, s, rfl, h, fun m o _ => Untouched.refl _ _ m o, rfl, ?_⟩
      intro before c after heq
      cases before <;> cases heq
  | cons offset rest ih =>
      obtain ⟨change, g1, s1, hrevert, h1, hothers1, hoffset, hchange⟩ :=
        h.revertOffset hhost locked module offset
      obtain ⟨more, g', s', hrest, h', hothers', hoffsets, hlater⟩ := ih h1
      refine ⟨change :: more, g', s', ?_, h', ?_, ?_, ?_⟩
      · simp only [Registry.revertOffsets, hrevert, hrest]
      · intro m o hother
        refine (hothers1 m o ?_).trans (hothers' m o ?_)
        · rintro ⟨hm, ho⟩
          exact hother ⟨hm, ho ▸ List.mem_cons_self⟩
        · rintro ⟨hm, ho⟩
          exact hother ⟨hm, List.mem_cons_of_mem _ ho⟩
      · rw [List.map_cons, hoffset, hoffsets]
      · intro before c after heq hlast
        cases before with
        | nil =>
            cases heq
            have huntouched := Untouched.of_later_changes hothers' hoffsets hlast
            rw [huntouched.statusIn_eq, hoffset]
            exact hchange
        | cons first before =>
            cases heq
            exact hlater before c after rfl hlast

/-! ## Requests to a registry -/

theorem lock
    (hhost : host.Fallible fit patches)
    (h : Tended fit patches g s)
    (pin : Nat → Option Mapping) (module : Nat) :
    fit (g.lock host pin module s).2 ∧ patches (g.lock host pin module s).2 = patches s := by
  unfold Registry.lock
  split
  · exact ⟨h.fit, rfl⟩
  · split
    · exact ⟨h.fit, rfl⟩
    · next mapping _ =>
        have hkeeps := hhost.relax_keeps mapping h.fit
        cases hrelax : host.relax mapping s with
        | mk guards s1 =>
            rw [hrelax] at hkeeps
            cases guards with
            | none => exact hkeeps
            | some guards => exact hkeeps

theorem unlock
    (hhost : host.Fallible fit patches)
    (l : Option Lock)
    (hs : fit s) :
    fit (Registry.unlock host l s) ∧ patches (Registry.unlock host l s) = patches s := by
  cases l with
  | none => exact ⟨hs, rfl⟩
  | some l => exact hhost.releaseAll_keeps l.guards hs

/-- Requests of patches. -/
theorem apply
    (hhost : host.Fallible fit patches)
    (h : Tended fit patches g s)
    (pin : Nat → Option Mapping) (module : Nat) (targets : List Target) :
    ∃ answer g' s', g.apply host pin module targets s = (answer, g', s') ∧
      Tended fit patches g' s' ∧
      ∀ changes, answer = some changes → changes.map (·.offset) = targets.map (·.offset) ∧
        ∀ before c after, changes = before ++ c :: after → (∀ x ∈ after, x.offset ≠ c.offset) →
          ∃ r, g'.find? module c.offset = some r ∧
            (c.outcome.Applied (r.statusIn (patches s')) ∨
              (c.outcome = .activationError ∧ r.statusIn (patches s') = .active ∧
                ∃ x, g.find? module c.offset = some x ∧ x.LeftActive (patches s))) := by
  have hlocked := h.lock hhost pin module
  cases hlock : g.lock host pin module s with
  | mk l s1 =>
      rw [hlock] at hlocked
      obtain ⟨answer, g', s2, happly, h2, _, hanswer⟩ :=
        (h.of_keeps hlocked).applyTargets hhost l module targets
      have hunlocked := unlock hhost l h2.fit
      refine ⟨answer, g', Registry.unlock host l s2, ?_, h2.of_keeps hunlocked, ?_⟩
      · simp only [Registry.apply, hlock, happly]
      · rw [hunlocked.2, ← hlocked.2]
        exact hanswer

/-- Withdrawals of requests. -/
theorem revert
    (hhost : host.Fallible fit patches)
    (h : Tended fit patches g s)
    (pin : Nat → Option Mapping) (module : Nat) (offsets : List Nat) :
    ∃ changes g' s', g.revert host pin module offsets s = (changes, g', s') ∧
      Tended fit patches g' s' ∧ changes.map (·.offset) = offsets ∧
      ∀ before c after, changes = before ++ c :: after → (∀ x ∈ after, x.offset ≠ c.offset) →
        c.outcome.Reverted ((g'.find? module c.offset).map (·.statusIn (patches s'))) := by
  have hlocked := h.lock hhost pin module
  cases hlock : g.lock host pin module s with
  | mk l s1 =>
      rw [hlock] at hlocked
      obtain ⟨changes, g', s2, hrevert, h2, _, hoffsets, hanswer⟩ :=
        (h.of_keeps hlocked).revertOffsets hhost l.isSome module offsets
      have hunlocked := unlock hhost l h2.fit
      refine ⟨changes, g', Registry.unlock host l s2, ?_, h2.of_keeps hunlocked, hoffsets, ?_⟩
      · simp only [Registry.revert, hlock, hrevert]
      · rw [hunlocked.2]
        exact hanswer

/-- A query lists the state of each function that has a record, once. -/
theorem query
    (hhost : host.Fallible fit patches)
    (h : Tended fit patches g s)
    (module offset : Nat) :
    ((g.query host s module).filter (·.offset = offset)).map (·.status) =
      ((g.find? module offset).map (·.statusIn (patches s))).toList := by
  have hstatus : (fun r : Record => r.status (host.isActive · s)) = (·.statusIn (patches s)) :=
    funext fun r => r.status_eq_statusIn hhost h.fit
  have hlisted : ((g.query host s module).filter (·.offset = offset)).map (·.status) =
      (g.records.filter fun r => r.module = module && r.offset = offset).map
        fun r => r.status (host.isActive · s) := by
    rw [Registry.query, List.filter_map, List.map_map, List.filter_filter]
    congr 1
    refine List.filter_congr ?_
    intro r _
    exact Bool.and_comm _ _
  rw [hlisted, Registry.filter_function h.ordered, hstatus]
  unfold Registry.find?
  cases g.records.find? fun r => r.module = module && r.offset = offset <;> rfl

end Tended

/-! ## Requests are answered -/

/-- The host finishes what it is asked for, with whatever result. -/
structure Host.Finishes (host : Host σ) : Prop where
  build : ∀ site a s, (host.build site a s).1 ≠ .abandoned
  activate : ∀ p s, (host.activate p s).1 ≠ .abandoned

namespace Host.Finishes

theorem switchOn
    (hhost : host.Finishes)
    (r : Record) (s : σ) :
    ∃ o r' s', r.switchOn host s = (some o, r', s') := by
  unfold Record.switchOn
  split
  · next p _ =>
      have hswitched := hhost.activate p s
      cases hactivate : host.activate p s with
      | mk switched s1 =>
          rw [hactivate] at hswitched
          cases switched with
          | abandoned => exact absurd rfl hswitched
          | failed => exact ⟨_, r, s1, rfl⟩
          | done => exact ⟨_, r, s1, rfl⟩
  · exact ⟨_, r, s, rfl⟩

theorem instantiate
    (hhost : host.Finishes)
    (mapping : Mapping) (allocator : Option Nat) (r : Record) (s : σ) :
    ∃ o r' s', r.instantiate host mapping allocator s = (some o, r', s') := by
  unfold Record.instantiate
  split
  · cases allocator with
    | none =>
        exact ⟨_, _, s, rfl⟩
    | some a =>
        have hbuilt := hhost.build ⟨mapping.addressOf r.offset, r.size, r.id⟩ a s
        simp only
        split
        · next hbuild =>
            rw [hbuild] at hbuilt
            exact absurd rfl hbuilt
        · next s1 _ => exact ⟨_, _, s1, rfl⟩
        · next p s1 _ => exact hhost.switchOn _ s1
  · exact hhost.switchOn r s

theorem applyTargets
    (hhost : host.Finishes)
    (l : Option Lock) (module : Nat) (targets : List Target) (g : Registry) (s : σ) :
    ∃ changes g' s', Registry.applyTargets host l module targets g s = (some changes, g', s') := by
  induction targets generalizing g s with
  | nil =>
      exact ⟨[], g, s, rfl⟩
  | cons t rest ih =>
      have hfirst : ∃ change g1 s1,
          Registry.applyTarget host l module t g s = (some change, g1, s1) := by
        obtain ⟨r, g1, hrecord⟩ : ∃ r g1, g.record module t = (r, g1) := ⟨_, _, rfl⟩
        simp only [Registry.applyTarget, hrecord]
        split
        · exact ⟨_, _, s, rfl⟩
        · split
          · exact ⟨_, _, s, rfl⟩
          · cases l with
            | none =>
                exact ⟨_, _, s, rfl⟩
            | some l =>
                obtain ⟨o, r', s', hinstantiate⟩ := hhost.instantiate l.mapping l.allocator
                  { r with desired := .active } s
                refine ⟨r'.answer o, g1.put r', s', ?_⟩
                simp only [hinstantiate, Option.map_some]
      obtain ⟨change, g1, s1, happly⟩ := hfirst
      obtain ⟨changes, g', s', hrest⟩ := ih g1 s1
      refine ⟨change :: changes, g', s', ?_⟩
      simp only [Registry.applyTargets, happly, hrest, Option.map_some]

/-- Requests of patches are answered. -/
theorem apply
    (hhost : host.Finishes)
    (pin : Nat → Option Mapping) (module : Nat) (targets : List Target) (g : Registry) (s : σ) :
    ∃ changes g' s', g.apply host pin module targets s = (some changes, g', s') := by
  obtain ⟨changes, g', s', happly⟩ := hhost.applyTargets (g.lock host pin module s).1 module targets g
    (g.lock host pin module s).2
  refine ⟨changes, g', Registry.unlock host (g.lock host pin module s).1 s', ?_⟩
  simp only [Registry.apply, happly]

end Host.Finishes

end CallProfiler.Image
