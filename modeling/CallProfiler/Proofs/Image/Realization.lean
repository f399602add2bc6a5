import CallProfiler.Proofs.Image.Obliging
import CallProfiler.Proofs.Image.Records
import CallProfiler.Proofs.Image.Wishes

/-!
# A registry realizes wishes

`Realizes` relates what has to be remembered to the records, mappings and patches of a registry: a
record for each function ever named, an active patch for each wanted function whose module is mapped,
and no other patch.  Every operation of the registry keeps the relation while its host grants all
requests.

**Main statements.**
* `Realizes.apply`, `Realizes.revert`: batches of requests.
* `Realizes.mapped`, `Realizes.unmapped`: the events of the tracker.
-/

namespace CallProfiler.Image

variable {σ : Type}

/-- The current mappings of the modules. -/
abbrev Places := Nat → Option (Nat × Mapping)

namespace Record

/-- Where the patch of a record has to be, if there has to be one. -/
def place? (places : Places) (r : Record) : Option Nat :=
  match r.desired with
  | .dormant => none
  | .active => (places r.module).map fun c => c.2.addressOf r.offset

/-- The record has an active patch where it has to be, or none if there has to be none. -/
def Backed (view : Nat → Option LivePatch) (places : Places) (r : Record) : Prop :=
  match r.place? places with
  | none => r.backing = .absent
  | some address => ∃ p, r.backing = .instantiated p ∧ view p = some ⟨address, true⟩

theorem Backed.of_none
    {view : Nat → Option LivePatch} {places : Places} {r : Record}
    (h : r.Backed view places)
    (hplace : r.place? places = none) :
    r.backing = .absent := by
  unfold Backed at h
  rw [hplace] at h
  exact h

theorem Backed.of_some
    {view : Nat → Option LivePatch} {places : Places} {r : Record} {address : Nat}
    (h : r.Backed view places)
    (hplace : r.place? places = some address) :
    ∃ p, r.backing = .instantiated p ∧ view p = some ⟨address, true⟩ := by
  unfold Backed at h
  rw [hplace] at h
  exact h

theorem backed_absent
    {view : Nat → Option LivePatch} {places : Places} {r : Record}
    (hplace : r.place? places = none)
    (hbacking : r.backing = .absent) :
    r.Backed view places := by
  unfold Backed
  rw [hplace]
  exact hbacking

theorem backed_instantiated
    {view : Nat → Option LivePatch} {places : Places} {r : Record} {address p : Nat}
    (hplace : r.place? places = some address)
    (hbacking : r.backing = .instantiated p)
    (hview : view p = some ⟨address, true⟩) :
    r.Backed view places := by
  unfold Backed
  rw [hplace]
  exact ⟨p, hbacking, hview⟩

/-- Only the patch of the record matters, and only the place of its own module. -/
theorem Backed.congr
    {view view' : Nat → Option LivePatch} {places places' : Places} {r : Record}
    (h : r.Backed view places)
    (hplaces : places' r.module = places r.module)
    (hview : ∀ p, r.patch? = some p → view' p = view p) :
    r.Backed view' places' := by
  have hplace : r.place? places' = r.place? places := by
    unfold place?
    rw [hplaces]
  cases hold : r.place? places with
  | none =>
      exact backed_absent (hplace.trans hold) (h.of_none hold)
  | some address =>
      obtain ⟨p, hbacking, hp⟩ := h.of_some hold
      refine backed_instantiated (hplace.trans hold) hbacking ?_
      rw [hview p (by rw [patch?, hbacking])]
      exact hp

/-- A backed record is not broken. -/
theorem Backed.ne_broken
    {view : Nat → Option LivePatch} {places : Places} {r : Record}
    (h : r.Backed view places) :
    r.backing ≠ .broken := by
  cases hplace : r.place? places with
  | none =>
      rw [h.of_none hplace]
      intro hbroken
      cases hbroken
  | some address =>
      obtain ⟨p, hbacking, _⟩ := h.of_some hplace
      rw [hbacking]
      intro hbroken
      cases hbroken

end Record

/-- The registry realizes the wishes: the records stand for the requests, the patches for what is
wanted, and the mappings are known. -/
structure Realizes
    (fit : σ → Prop) (patches : σ → Nat → Option LivePatch)
    (w : Wishes) (g : Registry) (s : σ) : Prop where
  fit : fit s
  ordered : InOrder g.records
  numbered : ∀ r ∈ g.records, r.id ≠ 0
  requested : ∀ module offset desired, w.last module offset = some desired ↔
    ∃ r ∈ g.records, r.module = module ∧ r.offset = offset ∧ r.desired = desired
  backed : ∀ r ∈ g.records, r.Backed (patches s) w.current
  owned : Owns (patches s) (patchesOf g.records)
  known : ∀ module id, (∃ mapping, w.current module = some (id, mapping)) ↔
    ∃ k ∈ g.mappings, k.module = module ∧ k.mapping = id
  allocators : ∀ k ∈ g.mappings, k.allocator.isSome
  modules : ∀ id module, g.modules.lookup id = some module ↔
    ∃ mapping, w.current module = some (id, mapping)

/-! ## What the host does for one record -/

namespace Record

variable {host : Host σ} {fit : σ → Prop} {patches : σ → Nat → Option LivePatch}

/-- Building and switching on gives the record an active patch. -/
theorem instantiate_of_absent
    (hhost : host.Obliging fit patches)
    (mapping : Mapping) (a : Nat) {r : Record} {s : σ}
    (hbacking : r.backing = .absent)
    (hs : fit s) :
    ∃ p s', r.instantiate host mapping (some a) s =
        (some .ok, { r with backing := .instantiated p }, s') ∧
      fit s' ∧
      patches s' p = some ⟨mapping.addressOf r.offset, true⟩ ∧
      Trades (patches s) (patches s') none (some p) := by
  obtain ⟨p, s1, hbuild, hs1, hfresh, hview1⟩ :=
    hhost.build ⟨mapping.addressOf r.offset, r.size, r.id⟩ a hs
  have hbuilt : patches s1 p = some ⟨mapping.addressOf r.offset, false⟩ := by
    rw [hview1, Function.update_self]
  obtain ⟨s2, hactivate, hs2, hview2⟩ := hhost.activate p hs1 hbuilt
  have hactive : patches s2 p = some ⟨mapping.addressOf r.offset, true⟩ := by
    rw [hview2, Function.update_self]
  refine ⟨p, s2, ?_, hs2, hactive, ?_⟩
  · have hisActive : host.isActive p s2 = true := by
      rw [hhost.isActive p hs2, hactive]
      rfl
    simp only [instantiate, hbacking, hbuild, switchOn, hactivate, hisActive, if_true]
  · have hgain := Trades.gain hfresh ⟨mapping.addressOf r.offset, false⟩
    rw [← hview1] at hgain
    have hchange := Trades.change (patches s1) p ⟨mapping.addressOf r.offset, true⟩
    rw [← hview2] at hchange
    exact hgain.trans hchange

end Record

/-- Reverting and ending a patch leaves none. -/
theorem Host.Obliging.end_trades
    {host : Host σ} {fit : σ → Prop} {patches : σ → Nat → Option LivePatch}
    (hhost : host.Obliging fit patches)
    {p : Nat} {lp : LivePatch} {s : σ}
    (hs : fit s)
    (hlive : patches s p = some lp) :
    fit (host.remove p (host.revert p s)) ∧
      Trades (patches s) (patches (host.remove p (host.revert p s))) (some p) none := by
  obtain ⟨hs1, hview1⟩ := hhost.revert p hs hlive
  obtain ⟨hs2, hview2⟩ := hhost.remove p hs1
  refine ⟨hs2, ?_⟩
  have hchange := Trades.change (patches s) p { lp with active := false }
  rw [← hview1] at hchange
  have hlose := Trades.lose (patches (host.revert p s)) p
  rw [← hview2] at hlose
  exact hchange.trans hlose

/-! ## Requests -/

namespace Realizes

variable {host : Host σ} {fit : σ → Prop} {patches : σ → Nat → Option LivePatch}
  {w : Wishes} {g : Registry} {s s' : σ}

/-- Memory that changes without touching a patch. -/
theorem of_keeps
    (h : Realizes fit patches w g s)
    (hkeeps : fit s' ∧ patches s' = patches s) :
    Realizes fit patches w g s' :=
  { h with
    fit := hkeeps.1
    backed := by
      rw [hkeeps.2]
      exact h.backed
    owned := by
      rw [hkeeps.2]
      exact h.owned }

theorem find?_eq_none
    (h : Realizes fit patches w g s)
    {module offset : Nat}
    (hlast : w.last module offset = none) :
    g.find? module offset = none := by
  rw [Registry.find?_eq_none_iff]
  rintro r hr ⟨hmodule, hoffset⟩
  have hsome := (h.requested module offset r.desired).2 ⟨r, hr, hmodule, hoffset, rfl⟩
  rw [hlast] at hsome
  cases hsome

theorem find?_eq_some
    (h : Realizes fit patches w g s)
    {module offset : Nat} {desired : Desired}
    (hlast : w.last module offset = some desired) :
    ∃ r ∈ g.records, g.find? module offset = some r ∧
      r.module = module ∧ r.offset = offset ∧ r.desired = desired := by
  obtain ⟨r, hr, hmodule, hoffset, hdesired⟩ := (h.requested module offset desired).1 hlast
  exact ⟨r, hr, (Registry.find?_eq_some_iff h.ordered).2 ⟨hr, hmodule, hoffset⟩,
    hmodule, hoffset, hdesired⟩

/-- Putting a record in its place makes its request the last one, if its patch is in order. -/
theorem put
    (h : Realizes fit patches w g s)
    {r : Record}
    (hid : r.id ≠ 0)
    (hs' : fit s')
    (hbacked : r.Backed (patches s') w.current)
    (htrades : Trades (patches s) (patches s')
      ((g.find? r.module r.offset).bind Record.patch?) r.patch?) :
    Realizes fit patches (w.want r.module r.offset r.desired) (g.put r) s' := by
  have hmem : ∀ x, x ∈ (g.put r).records ↔ x = r ∨ (x ∈ g.records ∧ ¬ r.SameFunction x) :=
    fun x => Registry.mem_insertRecord h.ordered
  obtain ⟨others, hbefore, hafter, hothers⟩ := Registry.patchesOf_insertRecord r h.ordered
  obtain ⟨howned, hframe⟩ := htrades others (h.owned.perm hbefore)
  exact
    { fit := hs'
      ordered := Registry.inOrder_insertRecord r h.ordered
      numbered := by
        intro x hx
        rcases (hmem x).1 hx with rfl | ⟨hx, _⟩
        · exact hid
        · exact h.numbered x hx
      requested := by
        intro module offset desired
        rw [Wishes.want_last]
        by_cases hsame : module = r.module ∧ offset = r.offset
        · rw [if_pos hsame]
          constructor
          · intro hdesired
            exact ⟨r, (hmem r).2 (.inl rfl), hsame.1.symm, hsame.2.symm, Option.some.inj hdesired⟩
          · rintro ⟨x, hx, hmodule, hoffset, rfl⟩
            rcases (hmem x).1 hx with rfl | ⟨_, hdiffers⟩
            · rfl
            · refine absurd ⟨?_, ?_⟩ hdiffers
              · rw [hmodule, hsame.1]
              · rw [hoffset, hsame.2]
        · rw [if_neg hsame, h.requested]
          constructor
          · rintro ⟨x, hx, hmodule, hoffset, hdesired⟩
            refine ⟨x, (hmem x).2 (.inr ⟨hx, ?_⟩), hmodule, hoffset, hdesired⟩
            rintro ⟨hmodule', hoffset'⟩
            exact hsame ⟨hmodule.symm.trans hmodule'.symm, hoffset.symm.trans hoffset'.symm⟩
          · rintro ⟨x, hx, hmodule, hoffset, hdesired⟩
            rcases (hmem x).1 hx with rfl | ⟨hx, _⟩
            · exact absurd ⟨hmodule.symm, hoffset.symm⟩ hsame
            · exact ⟨x, hx, hmodule, hoffset, hdesired⟩
      backed := by
        intro x hx
        rcases (hmem x).1 hx with rfl | ⟨hx, hdiffers⟩
        · exact hbacked
        · refine (h.backed x hx).congr rfl ?_
          intro p hp
          exact hframe p (hothers x hx hdiffers p hp)
      owned := howned.perm hafter.symm
      known := h.known
      allocators := h.allocators
      modules := h.modules }

/-- The record of a function is there from the first request on. -/
theorem record
    (h : Realizes fit patches w g s)
    (module : Nat) (t : Target) :
    ∃ r g', g.record module t = (r, g') ∧ r.module = module ∧ r.offset = t.offset ∧
      r.desired = (w.last module t.offset).getD .dormant ∧ r ∈ g'.records ∧
      Realizes fit patches (w.want module t.offset r.desired) g' s := by
  cases hlast : w.last module t.offset with
  | some desired =>
      obtain ⟨r, hr, hfind, hmodule, hoffset, hdesired⟩ := h.find?_eq_some hlast
      refine ⟨r, g, ?_, hmodule, hoffset, hdesired, hr, ?_⟩
      · simp only [Registry.record, hfind]
      · rw [hdesired, Wishes.want_of_last hlast]
        exact h
  | none =>
      have hfind := h.find?_eq_none hlast
      let r : Record := ⟨module, t.offset, g.lastId + 1, t.size, .dormant, .absent⟩
      let g' : Registry := { g with lastId := g.lastId + 1 }
      have hg' : Realizes fit patches w g' s := { h with }
      have hfind' : g'.find? module t.offset = none := hfind
      refine ⟨r, g'.put r, ?_, rfl, rfl, rfl, ?_, ?_⟩
      · simp only [Registry.record, hfind]
        rfl
      · exact (Registry.mem_insertRecord h.ordered).2 (.inl rfl)
      · have hbacked : r.Backed (patches s) w.current := Record.backed_absent rfl rfl
        refine hg'.put (Nat.succ_ne_zero _) h.fit hbacked ?_
        have hold : (g'.find? r.module r.offset).bind Record.patch? = none := by
          rw [show g'.find? r.module r.offset = none from hfind']
          rfl
        rw [hold]
        exact Trades.keep rfl none

/-- The status of a record is what its request and its module's mapping make it. -/
theorem status_eq
    (hhost : host.Obliging fit patches)
    (h : Realizes fit patches w g s)
    {r : Record}
    (hr : r ∈ g.records) :
    w.status r.module r.offset = some (r.status (host.isActive · s)) := by
  have hlast := (h.requested r.module r.offset r.desired).2 ⟨r, hr, rfl, rfl, rfl⟩
  have hbacked := h.backed r hr
  unfold Wishes.status
  rw [hlast, Option.map_some]
  cases hdesired : r.desired with
  | dormant =>
      have hplace : r.place? w.current = none := by
        simp [Record.place?, hdesired]
      simp [Record.status, hbacked.of_none hplace, hdesired]
  | active =>
      cases hcurrent : w.current r.module with
      | none =>
          have hplace : r.place? w.current = none := by
            simp [Record.place?, hdesired, hcurrent]
          simp [Record.status, hbacked.of_none hplace, hdesired]
      | some c =>
          have hplace : r.place? w.current = some (c.2.addressOf r.offset) := by
            simp [Record.place?, hdesired, hcurrent]
          obtain ⟨p, hbacking, hlive⟩ := hbacked.of_some hplace
          simp [Record.status, hbacking, hdesired, hhost.isActive p h.fit, hlive]

end Realizes

/-- A module is held in place exactly if it is mapped, with memory for its patches. -/
def Lock.Fits (l : Option Lock) (place : Option (Nat × Mapping)) : Prop :=
  match l, place with
  | none, none => True
  | some l, some c => l.mapping = c.2 ∧ l.allocator.isSome
  | _, _ => False

namespace Realizes

variable {host : Host σ} {fit : σ → Prop} {patches : σ → Nat → Option LivePatch}
  {w : Wishes} {g : Registry} {s s' : σ}

/-- Requesting the patch of a function that has a record already. -/
theorem applyTarget_of_record
    (hhost : host.Obliging fit patches)
    {g₀ : Registry} {r : Record} {l : Option Lock} {t : Target}
    (hrecord : g₀.record r.module t = (r, g))
    (h : Realizes fit patches w g s)
    (hr : r ∈ g.records)
    (hl : Lock.Fits l (w.current r.module)) :
    ∃ change g' s', Registry.applyTarget host l r.module t g₀ s = (some change, g', s') ∧
      change.reply = (w.applyOne r.module r.offset).1 ∧
      Realizes fit patches (w.want r.module r.offset .active) g' s' := by
  have hid : r.id ≠ 0 := h.numbered r hr
  have hbacked := h.backed r hr
  have hstatus := h.status_eq hhost hr
  have hlast : w.last r.module r.offset = some r.desired :=
    (h.requested _ _ _).2 ⟨r, hr, rfl, rfl, rfl⟩
  have hfind : g.find? r.module r.offset = some r :=
    (Registry.find?_eq_some_iff h.ordered).2 ⟨hr, rfl, rfl⟩
  simp only [Registry.applyTarget, hrecord, if_neg hbacked.ne_broken]
  by_cases hactive : r.status (host.isActive · s) = .active
  · -- it is active already
    rw [hactive] at hstatus
    obtain ⟨hwanted, hplace⟩ := Wishes.status_eq_active.1 hstatus
    have hmapped : (w.current r.module).isNone = false := by
      rw [← Option.not_isSome, hplace]
      rfl
    rw [if_pos hactive]
    refine ⟨_, g, s, rfl, ?_, ?_⟩
    · simp [Record.answer, PatchChange.reply, Wishes.applyOne, hid, hmapped, hstatus]
    · rw [Wishes.want_of_last hwanted]
      exact h
  · have hinactive : w.status r.module r.offset ≠ some .active := by
      rw [hstatus]
      intro hsame
      exact hactive (Option.some.inj hsame)
    rw [if_neg hactive]
    let wanted : Record := { r with desired := .active }
    cases hplace : w.current r.module with
    | none =>
        -- the module is not mapped: the request has to wait
        cases l with
        | some l =>
            rw [hplace] at hl
            exact absurd hl id
        | none =>
            have habsent : r.backing = .absent := by
              apply hbacked.of_none
              cases hdesired : r.desired <;> simp [Record.place?, hdesired, hplace]
            refine ⟨_, _, s, rfl, ?_, ?_⟩
            · simp [Record.answer, PatchChange.reply, Wishes.applyOne, hid, hplace]
            · refine h.put (r := wanted) hid h.fit (Record.backed_absent ?_ habsent) ?_
              · simp [wanted, Record.place?, hplace]
              · rw [hfind]
                exact Trades.keep rfl r.patch?
    | some c =>
        -- it was dormant in a mapped module: a patch is built for it
        cases l with
        | none =>
            rw [hplace] at hl
            exact absurd hl id
        | some l =>
            rw [hplace] at hl
            obtain ⟨hmapping, hallocator⟩ := hl
            obtain ⟨a, ha⟩ := Option.isSome_iff_exists.1 hallocator
            have hdormant : r.desired = .dormant := by
              cases hdesired : r.desired with
              | dormant =>
                  rfl
              | active =>
                  rw [hdesired] at hlast
                  refine absurd (Wishes.status_eq_active.2 ⟨hlast, ?_⟩) hinactive
                  rw [hplace]
                  rfl
            have habsent : r.backing = .absent := by
              apply hbacked.of_none
              simp [Record.place?, hdormant]
            obtain ⟨p, s1, hinstantiate, hs1, hlive, htrades⟩ :=
              Record.instantiate_of_absent hhost l.mapping a (r := wanted) habsent h.fit
            rw [← ha] at hinstantiate
            let built : Record := { wanted with backing := .instantiated p }
            refine ⟨built.answer .ok, g.put built, s1, ?_, ?_, ?_⟩
            · simp only [wanted] at hinstantiate
              simp only [hinstantiate, Option.map_some]
              rfl
            · simp [built, wanted, Record.answer, PatchChange.reply, Wishes.applyOne, hid, hplace,
                hinactive]
            · refine h.put (r := built) hid hs1 (Record.backed_instantiated ?_ rfl hlive) ?_
              · simp [built, wanted, Record.place?, hplace, hmapping]
              · have hnone : r.patch? = none := by
                  simp [Record.patch?, habsent]
                rw [hfind, Option.bind_some, hnone]
                exact htrades

/-- Requesting the patch of one function. -/
theorem applyTarget
    (hhost : host.Obliging fit patches)
    (h : Realizes fit patches w g s)
    {l : Option Lock} {module : Nat}
    (hl : Lock.Fits l (w.current module))
    (t : Target) :
    ∃ change g' s', Registry.applyTarget host l module t g s = (some change, g', s') ∧
      change.reply = (w.applyOne module t.offset).1 ∧
      Realizes fit patches (w.applyOne module t.offset).2 g' s' := by
  obtain ⟨r, g1, hrecord, hmodule, hoffset, hdesired, hr, h1⟩ := h.record module t
  subst hmodule
  obtain ⟨change, g', s', happly, hreply, h'⟩ := h1.applyTarget_of_record hhost hrecord hr hl
  refine ⟨change, g', s', happly, ?_, ?_⟩
  · rw [hreply, hoffset, hdesired, Wishes.applyOne_want]
  · rw [hoffset, Wishes.want_want] at h'
    exact h'

/-- **A batch of requests** is answered one by one, whatever it repeats. -/
theorem applyTargets
    (hhost : host.Obliging fit patches)
    {l : Option Lock} {module : Nat}
    (targets : List Target)
    (h : Realizes fit patches w g s)
    (hl : Lock.Fits l (w.current module)) :
    ∃ changes g' s', Registry.applyTargets host l module targets g s = (some changes, g', s') ∧
      changes.map (·.reply) = (Wishes.applyAll module targets w).1 ∧
      Realizes fit patches (Wishes.applyAll module targets w).2 g' s' := by
  induction targets generalizing w g s with
  | nil =>
      exact ⟨[], g, s, rfl, rfl, h⟩
  | cons t rest ih =>
      obtain ⟨change, g1, s1, happly, hreply, h1⟩ := h.applyTarget hhost hl t
      obtain ⟨changes, g2, s2, hrest, hreplies, h2⟩ := ih h1 hl
      refine ⟨change :: changes, g2, s2, ?_, ?_, h2⟩
      · simp only [Registry.applyTargets, happly, hrest, Option.map_some]
      · rw [List.map_cons, hreply, hreplies]
        rfl

/-- Withdrawing the request for one function. -/
theorem revertOffset
    (hhost : host.Obliging fit patches)
    (h : Realizes fit patches w g s)
    {locked : Bool} {module : Nat}
    (hlocked : locked = (w.current module).isSome)
    (offset : Nat) :
    ∃ change g' s', Registry.revertOffset host locked module offset g s = (change, g', s') ∧
      change.reply = (w.revertOne module offset).1 ∧
      Realizes fit patches (w.revertOne module offset).2 g' s' := by
  cases hlast : w.last module offset with
  | none =>
      refine ⟨⟨0, offset, 0, .unchanged⟩, g, s, ?_, ?_, ?_⟩
      · simp only [Registry.revertOffset, h.find?_eq_none hlast]
      · simp [PatchChange.reply, Wishes.revertOne, hlast]
      · simpa only [Wishes.revertOne, hlast] using h
  | some desired =>
      obtain ⟨r, hr, hfind, rfl, rfl, hdesired⟩ := h.find?_eq_some hlast
      have hid : r.id ≠ 0 := h.numbered r hr
      have hbacked := h.backed r hr
      simp only [Registry.revertOffset, hfind, if_neg hbacked.ne_broken]
      cases desired with
      | dormant =>
          rw [if_pos hdesired]
          refine ⟨_, g, s, rfl, ?_, ?_⟩
          · simp [Record.answer, PatchChange.reply, Wishes.revertOne, hlast, hid]
          · simpa only [Wishes.revertOne, hlast] using h
      | active =>
          have hwanted : r.desired ≠ .dormant := by
            rw [hdesired]
            intro hdormant
            cases hdormant
          rw [if_neg hwanted]
          let unwanted : Record := { r with desired := .dormant, backing := .absent }
          have hplace : unwanted.place? w.current = none := rfl
          have hreply : (unwanted.answer .ok).reply = (w.revertOne r.module r.offset).1 := by
            simp [unwanted, Record.answer, PatchChange.reply, Wishes.revertOne, hlast, hid]
          have hwishes : (w.revertOne r.module r.offset).2 =
              w.want unwanted.module unwanted.offset unwanted.desired := by
            simp [unwanted, Wishes.revertOne, hlast]
          cases hcurrent : w.current r.module with
          | none =>
              -- there is no patch to end
              have habsent : r.backing = .absent := by
                apply hbacked.of_none
                simp [Record.place?, hdesired, hcurrent]
              refine ⟨unwanted.answer .ok, g.put unwanted, s, ?_, hreply, ?_⟩
              · simp only [Record.takePatch, habsent]
                rfl
              · rw [hwishes]
                refine h.put (r := unwanted) hid h.fit (Record.backed_absent hplace rfl) ?_
                have hnone : r.patch? = none := by
                  simp [Record.patch?, habsent]
                rw [show g.find? unwanted.module unwanted.offset = some r from hfind,
                  Option.bind_some, hnone]
                exact Trades.keep rfl none
          | some c =>
              -- the patch is alive, and the module is held
              have haddress : r.place? w.current = some (c.2.addressOf r.offset) := by
                simp [Record.place?, hdesired, hcurrent]
              obtain ⟨p, hbacking, hlive⟩ := hbacked.of_some haddress
              obtain ⟨hs', htrades⟩ := hhost.end_trades h.fit hlive
              refine ⟨unwanted.answer .ok, g.put unwanted, host.remove p (host.revert p s), ?_,
                hreply, ?_⟩
              · simp only [Record.takePatch, hbacking, hlocked, hcurrent]
                rfl
              · rw [hwishes]
                refine h.put (r := unwanted) hid hs' (Record.backed_absent hplace rfl) ?_
                have hmine : r.patch? = some p := by
                  simp [Record.patch?, hbacking]
                rw [show g.find? unwanted.module unwanted.offset = some r from hfind,
                  Option.bind_some, hmine]
                exact htrades

theorem revertOffsets
    (hhost : host.Obliging fit patches)
    {locked : Bool} {module : Nat}
    (offsets : List Nat)
    (h : Realizes fit patches w g s)
    (hlocked : locked = (w.current module).isSome) :
    ∃ changes g' s', Registry.revertOffsets host locked module offsets g s = (changes, g', s') ∧
      changes.map (·.reply) = (Wishes.revertAll module offsets w).1 ∧
      Realizes fit patches (Wishes.revertAll module offsets w).2 g' s' := by
  induction offsets generalizing w g s with
  | nil =>
      exact ⟨[], g, s, rfl, rfl, h⟩
  | cons offset rest ih =>
      obtain ⟨change, g1, s1, hrevert, hreply, h1⟩ := h.revertOffset hhost hlocked offset
      have hlocked1 : locked = ((w.revertOne module offset).2.current module).isSome := by
        rw [Wishes.revertOne_current]
        exact hlocked
      obtain ⟨changes, g2, s2, hrest, hreplies, h2⟩ := ih h1 hlocked1
      refine ⟨change :: changes, g2, s2, ?_, ?_, h2⟩
      · simp only [Registry.revertOffsets, hrevert, hrest]
      · rw [List.map_cons, hreply, hreplies]
        rfl

/-- Holding a module in place touches no patch and succeeds exactly if the module is mapped. -/
theorem lock
    (hhost : host.Obliging fit patches)
    (h : Realizes fit patches w g s)
    {pin : Nat → Option Mapping}
    (hpin : ∀ module id mapping, w.current module = some (id, mapping) → pin id = some mapping)
    (module : Nat) :
    ∃ l s', g.lock host pin module s = (l, s') ∧ Lock.Fits l (w.current module) ∧
      Realizes fit patches w g s' := by
  cases hcurrent : w.current module with
  | none =>
      have hfind : g.mappings.find? (·.module = module) = none := by
        rw [List.find?_eq_none]
        intro k hk hmodule
        obtain ⟨mapping, hsome⟩ :=
          (h.known module k.mapping).2 ⟨k, hk, by simpa using hmodule, rfl⟩
        rw [hcurrent] at hsome
        cases hsome
      refine ⟨none, s, ?_, trivial, h⟩
      simp only [Registry.lock, hfind]
  | some c =>
      obtain ⟨id, mapping⟩ := c
      obtain ⟨k, hk, hmodule, _⟩ := (h.known module id).1 ⟨mapping, hcurrent⟩
      cases hfind : g.mappings.find? (·.module = module) with
      | none =>
          have hnone := List.find?_eq_none.1 hfind k hk
          simp [hmodule] at hnone
      | some known =>
          have hknown := List.mem_of_find?_eq_some hfind
          have hmodule' : known.module = module := by
            simpa using List.find?_some hfind
          obtain ⟨mapping', hcurrent'⟩ := (h.known module known.mapping).2 ⟨known, hknown, hmodule', rfl⟩
          obtain ⟨guards, s', hrelax, hkeeps⟩ := hhost.relax_eq mapping' h.fit
          refine ⟨some ⟨guards, mapping', known.allocator⟩, s', ?_, ?_, h.of_keeps hkeeps⟩
          · simp only [Registry.lock, hfind, hpin module _ _ hcurrent', hrelax]
          · rw [hcurrent] at hcurrent'
            cases hcurrent'
            exact ⟨rfl, h.allocators known hknown⟩

theorem unlock
    (hhost : host.Obliging fit patches)
    (h : Realizes fit patches w g s)
    (l : Option Lock) :
    Realizes fit patches w g (Registry.unlock host l s) := by
  cases l with
  | none =>
      exact h
  | some l =>
      exact h.of_keeps (hhost.releaseAll_keeps l.guards h.fit)

/-- **Requests of patches** are answered as the wishes say. -/
theorem apply
    (hhost : host.Obliging fit patches)
    (h : Realizes fit patches w g s)
    {pin : Nat → Option Mapping}
    (hpin : ∀ module id mapping, w.current module = some (id, mapping) → pin id = some mapping)
    (module : Nat) (targets : List Target) :
    ∃ changes g' s', g.apply host pin module targets s = (some changes, g', s') ∧
      changes.map (·.reply) = (Wishes.applyAll module targets w).1 ∧
      Realizes fit patches (Wishes.applyAll module targets w).2 g' s' := by
  obtain ⟨l, s1, hlock, hfits, h1⟩ := h.lock hhost hpin module
  obtain ⟨changes, g2, s2, happly, hreplies, h2⟩ := h1.applyTargets hhost targets hfits
  refine ⟨changes, g2, Registry.unlock host l s2, ?_, hreplies, h2.unlock hhost l⟩
  simp only [Registry.apply, hlock, happly]

/-- **Withdrawals of requests** are answered as the wishes say. -/
theorem revert
    (hhost : host.Obliging fit patches)
    (h : Realizes fit patches w g s)
    {pin : Nat → Option Mapping}
    (hpin : ∀ module id mapping, w.current module = some (id, mapping) → pin id = some mapping)
    (module : Nat) (offsets : List Nat) :
    ∃ changes g' s', g.revert host pin module offsets s = (changes, g', s') ∧
      changes.map (·.reply) = (Wishes.revertAll module offsets w).1 ∧
      Realizes fit patches (Wishes.revertAll module offsets w).2 g' s' := by
  obtain ⟨l, s1, hlock, hfits, h1⟩ := h.lock hhost hpin module
  have hlocked : l.isSome = (w.current module).isSome := by
    cases l with
    | none =>
        cases hcurrent : w.current module with
        | none =>
            rfl
        | some c =>
            rw [hcurrent] at hfits
            exact absurd hfits id
    | some l =>
        cases hcurrent : w.current module with
        | none =>
            rw [hcurrent] at hfits
            exact absurd hfits id
        | some c =>
            rfl
  obtain ⟨changes, g2, s2, hrevert, hreplies, h2⟩ := h1.revertOffsets hhost offsets hlocked
  refine ⟨changes, g2, Registry.unlock host l s2, ?_, hreplies, h2.unlock hhost l⟩
  simp only [Registry.revert, hlock, hrevert]

end Realizes

end CallProfiler.Image
