import CallProfiler.Proofs.Image.Handling
import CallProfiler.Proofs.Image.Observation

/-!
# The lives of patches

A patch is built once, for the function of a record that had none, and that record holds it.  It is
switched on any number of times, and then it is ended by switching it off and removing it, or it is
given up; after that it is never touched again.

**Main statements.**
* `Living`, `Ended`: the calls about a patch that is in memory, and about one whose life has ended.
* `Lives`: every patch that is held is living and stands where its module is, all others have ended.
* `Lives.course`: this is so at every stage of everything that a registry does.
* `GivesUp`, `Course.detached`: who gives up which patches.
-/

namespace CallProfiler.Image

variable {σ : Type}

/-! ## Stories -/

/-- The call is about the patch. -/
def Call.concerns (p : Nat) : Call → Bool
  | .build _ patch => patch = some p
  | .activate q | .revert q | .remove q | .detach q => q = p
  | _ => false

theorem Call.concerns_of_not_onPatches
    {c : Call}
    (h : c.onPatches = false)
    (p : Nat) :
    c.concerns p = false := by
  cases c <;> simp_all [Call.onPatches, Call.concerns]

/-- All calls about a patch. -/
def Journal.story (j : Journal σ) (p : Nat) : List Call := j.calls.filter (Call.concerns p)

/-- The patch was built and then switched on any number of times. -/
def Living (p : Nat) (story : List Call) : Prop :=
  ∃ site n, story = .build site (some p) :: List.replicate n (.activate p)

/-- Then it was ended, or given up. -/
def Ended (p : Nat) (story : List Call) : Prop :=
  ∃ life, Living p life ∧ (story = life ++ [.revert p, .remove p] ∨ story = life ++ [.detach p])

theorem Living.activate
    {p : Nat} {story : List Call}
    (h : Living p story) :
    Living p (story ++ [.activate p]) := by
  obtain ⟨site, n, rfl⟩ := h
  refine ⟨site, n + 1, ?_⟩
  rw [List.replicate_succ', List.cons_append]

/-- All that is true of patches and records at every moment. -/
structure Lives (current : Nat → Option Mapping) (records : List Record) (j : Journal σ) : Prop where
  /-- No patch has two records. -/
  apart : (patchesOf records).Nodup
  /-- A patch was built for the function of its record, in the current mapping of the module. -/
  sited : ∀ r ∈ records, ∀ p, r.patch? = some p → ∃ mapping, current r.module = some mapping ∧
    .build ⟨mapping.addressOf r.offset, r.size, r.id⟩ (some p) ∈ j.calls
  living : ∀ p ∈ patchesOf records, p < j.patches.length ∧ Living p (j.story p)
  ended : ∀ p < j.patches.length, p ∉ patchesOf records → Ended p (j.story p)
  fresh : ∀ p, j.patches.length ≤ p → j.story p = []

section Stories

variable {j j' : Journal σ} {calls : List Call} {p : Nat}

theorem Journal.story_append
    (hcalls : j'.calls = j.calls ++ calls)
    (p : Nat) :
    j'.story p = j.story p ++ calls.filter (Call.concerns p) := by
  rw [story, hcalls, List.filter_append]
  rfl

theorem Journal.story_of_others
    (hcalls : j'.calls = j.calls ++ calls)
    (hothers : ∀ c ∈ calls, c.concerns p = false) :
    j'.story p = j.story p := by
  have hnone : calls.filter (Call.concerns p) = [] := by
    simpa [List.filter_eq_nil_iff] using hothers
  rw [story_append hcalls, hnone, List.append_nil]

end Stories

namespace Lives

variable {current : Nat → Option Mapping} {records records' rest : List Record} {r r' : Record}
  {j j' : Journal σ} {calls : List Call} {p : Nat}

/-- Nothing has happened yet. -/
theorem empty
    (current : Nat → Option Mapping) (s : σ) :
    Lives current [] { state := s } where
  apart := List.nodup_nil
  sited := by simp
  living := by simp [patchesOf]
  ended := by simp
  fresh := fun _ _ => rfl

theorem perm
    (h : Lives current records j)
    (hperm : records.Perm records') :
    Lives current records' j where
  apart := (hperm.filterMap _).nodup_iff.1 h.apart
  sited := fun r hr => h.sited r (hperm.mem_iff.2 hr)
  living := fun p hp => h.living p ((hperm.filterMap _).mem_iff.2 hp)
  ended := fun p hp hnone => h.ended p hp fun hmem => hnone ((hperm.filterMap _).mem_iff.1 hmem)
  fresh := h.fresh

/-- What was built for a record stays in the journal. -/
theorem stays_sited
    (h : Lives current records j)
    (hcalls : j'.calls = j.calls ++ calls)
    (hr : r ∈ records)
    (hp : r.patch? = some p) :
    ∃ mapping, current r.module = some mapping ∧
      .build ⟨mapping.addressOf r.offset, r.size, r.id⟩ (some p) ∈ j'.calls := by
  obtain ⟨mapping, hcurrent, hbuilt⟩ := h.sited r hr p hp
  refine ⟨mapping, hcurrent, ?_⟩
  rw [hcalls]
  exact List.mem_append_left _ hbuilt

/-- Calls that are about no patch. -/
theorem quiet
    (h : Lives current records j)
    (hpatches : j'.patches = j.patches)
    (hcalls : j'.calls = j.calls ++ calls)
    (hquiet : ∀ c ∈ calls, ∀ p, c.concerns p = false) :
    Lives current records j' := by
  have hstory : ∀ p, j'.story p = j.story p :=
    fun p => Journal.story_of_others hcalls fun c hc => hquiet c hc p
  refine ⟨h.apart, fun r hr p hp => h.stays_sited hcalls hr hp, ?_, ?_, ?_⟩
  · simp only [hstory, hpatches]
    exact h.living
  · simp only [hstory, hpatches]
    exact h.ended
  · simp only [hstory, hpatches]
    exact h.fresh

/-- A record changes, but not its patch. -/
theorem replace
    (h : Lives current (r :: rest) j)
    (hendures : r.Endures r')
    (hpatch : r'.patch? = r.patch?) :
    Lives current (r' :: rest) j := by
  have hpatches : patchesOf (r' :: rest) = patchesOf (r :: rest) := by
    rw [patchesOf_cons, patchesOf_cons, hpatch]
  refine ⟨hpatches ▸ h.apart, ?_, ?_, ?_, h.fresh⟩
  · intro y hy p hp
    obtain rfl | hother := List.mem_cons.1 hy
    · obtain ⟨mapping, hcurrent, hbuilt⟩ := h.sited r List.mem_cons_self p (hpatch ▸ hp)
      rw [hendures.module, hendures.offset, hendures.size, hendures.id]
      exact ⟨mapping, hcurrent, hbuilt⟩
    · exact h.sited y (List.mem_cons_of_mem r hother) p hp
  · rw [hpatches]
    exact h.living
  · rw [hpatches]
    exact h.ended

/-- A record without a patch comes. -/
theorem add
    (h : Lives current records j)
    (hpatch : r.patch? = none) :
    Lives current (r :: records) j := by
  have hpatches : patchesOf (r :: records) = patchesOf records := by
    rw [patchesOf_cons, hpatch]
    rfl
  refine ⟨hpatches ▸ h.apart, ?_, ?_, ?_, h.fresh⟩
  · intro y hy p hp
    obtain rfl | hother := List.mem_cons.1 hy
    · rw [hpatch] at hp
      cases hp
    · exact h.sited y hother p hp
  · rw [hpatches]
    exact h.living
  · rw [hpatches]
    exact h.ended

/-- Calls about the patch that a record holds afterwards, and maybe before. -/
theorem holds
    (h : Lives current (r :: rest) j)
    (hr : ∀ q, r.patch? = some q → q = p)
    (hr' : r'.patch? = some p)
    (hrest : p ∉ patchesOf rest)
    (hsited : ∃ mapping, current r'.module = some mapping ∧
      .build ⟨mapping.addressOf r'.offset, r'.size, r'.id⟩ (some p) ∈ j'.calls)
    (hcalls : j'.calls = j.calls ++ calls)
    (hothers : ∀ q, q ≠ p → ∀ c ∈ calls, c.concerns q = false)
    (hlength : ∀ q, q ≠ p → (q < j'.patches.length ↔ q < j.patches.length))
    (hp : p < j'.patches.length)
    (hliving : Living p (j'.story p)) :
    Lives current (r' :: rest) j' := by
  have hstory : ∀ q, q ≠ p → j'.story q = j.story q :=
    fun q hq => Journal.story_of_others hcalls (hothers q hq)
  have hnow : patchesOf (r' :: rest) = p :: patchesOf rest := by
    rw [patchesOf_cons, hr']
    rfl
  have hbefore : ∀ q, q ∈ patchesOf (r :: rest) → q = p ∨ q ∈ patchesOf rest := by
    intro q hq
    rw [patchesOf_cons] at hq
    exact (List.mem_append.1 hq).imp_left fun hmine => hr q (Option.mem_toList.1 hmine)
  have hkept : ∀ q ∈ patchesOf rest, q ∈ patchesOf (r :: rest) := by
    intro q hq
    rw [patchesOf_cons]
    exact List.mem_append_right _ hq
  have hrestApart : (patchesOf rest).Nodup := by
    have hboth := h.apart
    rw [patchesOf_cons] at hboth
    exact (List.nodup_append.1 hboth).2.1
  refine ⟨?_, ?_, ?_, ?_, ?_⟩
  · rw [hnow]
    exact List.nodup_cons.2 ⟨hrest, hrestApart⟩
  · intro y hy q hq
    obtain rfl | hother := List.mem_cons.1 hy
    · rw [hr'] at hq
      cases hq
      exact hsited
    · exact h.stays_sited hcalls (List.mem_cons_of_mem r hother) hq
  · intro q hq
    rw [hnow] at hq
    obtain rfl | hother := List.mem_cons.1 hq
    · exact ⟨hp, hliving⟩
    · have hne : q ≠ p := fun hsame => hrest (hsame ▸ hother)
      rw [hstory q hne, hlength q hne]
      exact h.living q (hkept q hother)
  · intro q hq hnone
    rw [hnow, List.mem_cons, not_or] at hnone
    rw [hstory q hnone.1]
    exact h.ended q ((hlength q hnone.1).1 hq) fun hmem => (hbefore q hmem).elim hnone.1 hnone.2
  · intro q hq
    have hne : q ≠ p := by
      rintro rfl
      omega
    have hnot := (hlength q hne).not
    rw [hstory q hne]
    exact h.fresh q (by omega)

/-- Calls that end the patch of a record. -/
theorem letsGo
    (h : Lives current (r :: rest) j)
    (hr : r.patch? = some p)
    (hr' : r'.patch? = none)
    (hpatches : j'.patches = j.patches)
    (hcalls : j'.calls = j.calls ++ calls)
    (hothers : ∀ q, q ≠ p → ∀ c ∈ calls, c.concerns q = false)
    (hending : calls.filter (Call.concerns p) = [.revert p, .remove p] ∨
      calls.filter (Call.concerns p) = [.detach p]) :
    Lives current (r' :: rest) j' := by
  have hstory : ∀ q, q ≠ p → j'.story q = j.story q :=
    fun q hq => Journal.story_of_others hcalls (hothers q hq)
  have hnow : patchesOf (r' :: rest) = patchesOf rest := by
    rw [patchesOf_cons, hr']
    rfl
  have hbefore : patchesOf (r :: rest) = p :: patchesOf rest := by
    rw [patchesOf_cons, hr]
    rfl
  obtain ⟨hgone, hapart⟩ := List.nodup_cons.1 (hbefore ▸ h.apart)
  refine ⟨hnow ▸ hapart, ?_, ?_, ?_, ?_⟩
  · intro y hy q hq
    obtain rfl | hother := List.mem_cons.1 hy
    · rw [hr'] at hq
      cases hq
    · exact h.stays_sited hcalls (List.mem_cons_of_mem r hother) hq
  · intro q hq
    rw [hnow] at hq
    have hne : q ≠ p := fun hsame => hgone (hsame ▸ hq)
    rw [hstory q hne, hpatches]
    exact h.living q (hbefore ▸ List.mem_cons_of_mem p hq)
  · intro q hq hnone
    rw [hnow] at hnone
    by_cases hsame : q = p
    · subst hsame
      obtain ⟨_, hliving⟩ := h.living q (hbefore ▸ List.mem_cons_self)
      rw [Journal.story_append hcalls]
      refine ⟨j.story q, hliving, ?_⟩
      exact hending.imp (fun hcase => by rw [hcase]) (fun hcase => by rw [hcase])
    · rw [hstory q hsame]
      refine h.ended q (hpatches ▸ hq) ?_
      rw [hbefore, List.mem_cons, not_or]
      exact ⟨hsame, hnone⟩
  · intro q hq
    have hlt := (h.living p (hbefore ▸ List.mem_cons_self)).1
    rw [hpatches] at hq
    have hne : q ≠ p := by omega
    rw [hstory q hne]
    exact h.fresh q hq

/-- **What one stage of a record preserves.** -/
theorem record_stage
    {host : Host σ} {x : Scope}
    (h : Lives current (r :: rest) j)
    (hcurrent : ∀ mapping, x.mapping = some mapping → current r.module = some mapping)
    (hstage : Record.Stage host.watched x (r, j) (r', j')) :
    Lives current (r' :: rest) j' := by
  have hendures := hstage.endures
  cases hstage with
  | ask => exact h.replace hendures rfl
  | lack s habsent => exact h.replace hendures (by simp [Record.patch?, habsent])
  | fail habsent hplace hbuild hunbuilt =>
      obtain ⟨hcalls, hpatches⟩ := host.watched_unbuilt hbuild hunbuilt
      have hquiet := h.quiet hpatches hcalls (by simp [Call.concerns])
      exact hquiet.replace hendures (by simp [Record.patch?, habsent])
  | build habsent hplace hbuild =>
      obtain ⟨rfl, hcalls, hlength⟩ := host.watched_built hbuild
      have hnone : r.patch? = none := by simp [Record.patch?, habsent]
      refine h.holds (by simp [hnone]) rfl ?_ ⟨_, hcurrent _ hplace, ?_⟩ hcalls ?_ ?_ ?_ ?_
      · -- the number is new, so no other record can hold the patch
        intro hmem
        have hbefore : patchesOf (r :: rest) = patchesOf rest := by
          rw [patchesOf_cons, hnone]
          rfl
        exact Nat.lt_irrefl _ (h.living _ (hbefore ▸ hmem)).1
      · rw [hcalls]
        exact List.mem_append_right _ List.mem_cons_self
      · intro q hq c hc
        rw [List.mem_singleton.1 hc]
        simpa [Call.concerns] using hq.symm
      · intro q hq
        omega
      · omega
      · rw [Journal.story_append hcalls, h.fresh _ (Nat.le_refl _)]
        exact ⟨_, 0, List.filter_cons_of_pos (by simp [Call.concerns])⟩
  | @activate _ p s hbacking =>
      have hp : r.patch? = some p := by rw [Record.patch?, hbacking]
      have hcalls : (host.watched.activate p j).2.calls = j.calls ++ [.activate p] := rfl
      obtain ⟨hlt, hliving⟩ := h.living p (mem_patchesOf List.mem_cons_self hp)
      refine h.holds (by simp [hp]) hp ?_ ?_ hcalls ?_ (fun _ _ => Iff.rfl) hlt ?_
      · have hapart := h.apart
        rw [patchesOf_cons, hp] at hapart
        exact (List.nodup_cons.1 hapart).1
      · exact h.stays_sited hcalls List.mem_cons_self hp
      · intro q hq
        simpa [Call.concerns] using hq.symm
      · rw [Journal.story_append hcalls]
        simpa [Call.concerns] using hliving.activate
  | @remove _ p s hremoves hbacking =>
      have hp : r.patch? = some p := by rw [Record.patch?, hbacking]
      refine h.letsGo hp rfl rfl (host.watched_ended p j) ?_ (.inl ?_)
      · intro q hq
        simpa [Call.concerns] using hq.symm
      · simp [Call.concerns]
  | @detach _ p s hdetaches hbacking =>
      have hp : r.patch? = some p := by rw [Record.patch?, hbacking]
      have hcalls : (host.watched.detach p j).calls = j.calls ++ [.detach p] := rfl
      refine h.letsGo hp rfl rfl hcalls ?_ (.inr ?_)
      · intro q hq
        simpa [Call.concerns] using hq.symm
      · simp [Call.concerns]

/-- **What one stage preserves.** -/
theorem stage
    {host : Host σ} {x : Scope} {a b : Registry × Journal σ}
    (h : Lives current a.1.records a.2)
    (hcurrent : ∀ mapping, x.mapping = some mapping → current x.module = some mapping)
    (hstage : Registry.Stage host.watched x a b) :
    Lives current b.1.records b.2 := by
  cases hstage with
  | tables => exact h
  | prepare g hcall =>
      obtain ⟨hpatches, calls, hcalls, hquiet⟩ := hcall.calls
      exact h.quiet hpatches hcalls fun c hc => Call.concerns_of_not_onPatches (hquiet c hc)
  | create s hsplit hmodule hid habsent hnew =>
      dsimp only at h ⊢
      rw [hsplit] at h
      exact (h.add (by simp [Record.patch?, habsent])).perm List.perm_middle.symm
  | record hsplit hmodule hrecord =>
      dsimp only at h ⊢
      rw [hsplit] at h
      have hplace := fun mapping hmapping => hmodule ▸ hcurrent mapping hmapping
      exact ((h.perm List.perm_middle).record_stage hplace hrecord).perm List.perm_middle.symm

/-- **What everything that a registry does preserves.** -/
theorem course
    {host : Host σ} {x : Scope} {a b : Registry × Journal σ}
    (h : Lives current a.1.records a.2)
    (hcurrent : ∀ mapping, x.mapping = some mapping → current x.module = some mapping)
    (hcourse : Course host.watched x a b) :
    Lives current b.1.records b.2 :=
  hcourse.preserves (P := fun a => Lives current a.1.records a.2)
    (fun _ _ hstage hbefore => hbefore.stage hcurrent hstage) h

/-- Other modules may come and go than those with patches. -/
theorem moved
    {current' : Nat → Option Mapping}
    (h : Lives current records j)
    (hstays : ∀ module p mapping, Holds records module p → current module = some mapping →
      current' module = some mapping) :
    Lives current' records j :=
  { h with
    sited := by
      intro r hr p hp
      obtain ⟨mapping, hplace, hbuilt⟩ := h.sited r hr p hp
      exact ⟨mapping, hstays r.module p mapping ⟨r, hr, rfl, hp⟩ hplace, hbuilt⟩ }

/-- Where there is no patch, records can be forgotten. -/
theorem forgotten
    (h : Lives current records j)
    (hnone : ∀ module p, ¬ Holds records module p) :
    Lives current [] j := by
  have hempty : patchesOf records = [] := by
    refine List.filterMap_eq_nil_iff.2 fun r hr => ?_
    cases hp : r.patch? with
    | none => rfl
    | some p => exact absurd ⟨r, hr, rfl, hp⟩ (hnone r.module p)
  refine ⟨List.nodup_nil, by simp, by simp [patchesOf], ?_, h.fresh⟩
  intro p hp _
  exact h.ended p hp (by simp [hempty])

end Lives

/-! ## Who gives up patches -/

/-- Between two journals, patches were given up for reasons only, which depend on the calls before. -/
def GivesUp (why : List Call → Nat → Prop) (j j' : Journal σ) : Prop :=
  ∃ calls, j'.calls = j.calls ++ calls ∧
    ∀ earlier p later, calls = earlier ++ .detach p :: later → why earlier p

/-- No patch was given up. -/
abbrev GivesUpNothing (j j' : Journal σ) : Prop := GivesUp (fun _ _ => False) j j'

/-- An element of two lists, one after the other. -/
theorem split_of_append
    {α : Type} {l l' before after : List α} {a : α}
    (h : l ++ l' = before ++ a :: after) :
    (∃ after', l = before ++ a :: after') ∨
      ∃ before', before = l ++ before' ∧ l' = before' ++ a :: after := by
  obtain ⟨before', hbefore, hl'⟩ | ⟨after', hl, hafter⟩ := List.append_eq_append_iff.1 h
  · exact .inr ⟨before', hbefore, hl'⟩
  · cases after' with
    | nil => exact .inr ⟨[], by simpa using hl.symm, hafter.symm⟩
    | cons b after' =>
        cases hafter
        exact .inl ⟨after', hl⟩

namespace GivesUp

variable {why why' : List Call → Nat → Prop} {j j1 j2 j' : Journal σ} {calls : List Call}

theorem mono
    (h : GivesUp why j j')
    (hwhy : ∀ earlier p, why earlier p → why' earlier p) :
    GivesUp why' j j' := by
  obtain ⟨calls, hcalls, hgiven⟩ := h
  exact ⟨calls, hcalls, fun earlier p later hsplit => hwhy earlier p (hgiven earlier p later hsplit)⟩

theorem of_nothing
    (h : GivesUpNothing j j') :
    GivesUp why j j' :=
  h.mono fun _ _ => False.elim

/-- The reasons do not depend on calls before. -/
theorem of_mem
    (hcalls : j'.calls = j.calls ++ calls)
    (hwhy : ∀ p, .detach p ∈ calls → ∀ earlier, why earlier p) :
    GivesUp why j j' := by
  refine ⟨calls, hcalls, ?_⟩
  rintro earlier p later rfl
  exact hwhy p (List.mem_append_right _ List.mem_cons_self) earlier

/-- A reason that holds after some calls holds after more of them. -/
theorem trans
    (h : GivesUp why j j1)
    (h' : GivesUp why j1 j2)
    (hwhy : ∀ before earlier p, why earlier p → why (before ++ earlier) p) :
    GivesUp why j j2 := by
  obtain ⟨calls, hcalls, hgiven⟩ := h
  obtain ⟨calls', hcalls', hgiven'⟩ := h'
  refine ⟨calls ++ calls', by rw [hcalls', hcalls, List.append_assoc], ?_⟩
  intro earlier p later hsplit
  obtain ⟨later', hfirst⟩ | ⟨earlier', rfl, hsecond⟩ := split_of_append hsplit
  · exact hgiven earlier p later' hfirst
  · exact hwhy calls earlier' p (hgiven' earlier' p later hsecond)

end GivesUp

/-- A patch is given up only where the scope allows it, and by the record that holds it. -/
theorem Record.Stage.detached
    {host : Host σ} {x : Scope} {r r' : Record} {j j' : Journal σ}
    (h : Record.Stage host.watched x (r, j) (r', j')) :
    ∃ calls, j'.calls = j.calls ++ calls ∧
      ∀ p, .detach p ∈ calls → x.detaches = true ∧ r.patch? = some p := by
  cases h with
  | ask | lack => exact ⟨[], (List.append_nil _).symm, by simp⟩
  | fail habsent hplace hbuild hunbuilt =>
      exact ⟨_, (host.watched_unbuilt hbuild hunbuilt).1, by simp⟩
  | build habsent hplace hbuild => exact ⟨_, (host.watched_built hbuild).2.1, by simp⟩
  | @activate _ p => exact ⟨[.activate p], rfl, by simp⟩
  | @remove _ p => exact ⟨_, host.watched_ended p j, by simp⟩
  | @detach _ p s hdetaches hbacking =>
      refine ⟨[.detach p], rfl, fun q hq => ⟨hdetaches, ?_⟩⟩
      cases List.mem_singleton.1 hq
      rw [Record.patch?, hbacking]

/-- Preparations have nothing to do with patches. -/
theorem Lives.prepares
    {host : Host σ} {current : Nat → Option Mapping} {records : List Record} {j j' : Journal σ}
    (h : Lives current records j)
    (hprepares : Relation.ReflTransGen host.watched.Prepares j j') :
    Lives current records j' ∧ GivesUpNothing j j' := by
  obtain ⟨hpatches, calls, hcalls, hquiet⟩ := host.calls_of_prepares hprepares
  refine ⟨h.quiet hpatches hcalls fun c hc => Call.concerns_of_not_onPatches (hquiet c hc), ?_⟩
  exact .of_mem hcalls fun p hp => absurd (hquiet _ hp) (by simp [Call.onPatches])

/-- Where no patches are built, those that are held were held before. -/
theorem Course.holds
    {host : Host σ} {x : Scope} {a b : Registry × σ} {module p : Nat}
    (h : Course host x a b)
    (hmapping : x.mapping = none) :
    Holds b.1.records module p → Holds a.1.records module p := by
  rintro ⟨r', hr', hmodule, hp⟩
  obtain ⟨r, hr, hendures, hheld⟩ := h.origin hmapping hr' hp
  exact ⟨r, hr, hendures.module.symm.trans hmodule, hheld⟩

/-- **Patches are given up** only where the scope allows it, and only those of its module. -/
theorem Course.detached
    {host : Host σ} {x : Scope} {a b : Registry × Journal σ}
    (h : Course host.watched x a b) :
    ∃ calls, b.2.calls = a.2.calls ++ calls ∧ ∀ p, .detach p ∈ calls → x.detaches = true ∧
      (x.mapping = none → Holds a.1.records x.module p) := by
  induction h with
  | refl => exact ⟨[], (List.append_nil _).symm, by simp⟩
  | @tail b c hearlier hlast ih =>
      obtain ⟨calls, hcalls, hgiven⟩ := ih
      have hstage : ∃ calls', c.2.calls = b.2.calls ++ calls' ∧
          ∀ p, .detach p ∈ calls' → x.detaches = true ∧ Holds b.1.records x.module p := by
        cases hlast with
        | tables | create => exact ⟨[], (List.append_nil _).symm, by simp⟩
        | prepare g hcall =>
            obtain ⟨_, calls', hcalls', hquiet⟩ := hcall.calls
            exact ⟨calls', hcalls', fun p hp => absurd (hquiet _ hp) (by simp [Call.onPatches])⟩
        | @record g r _ _ _ _ _ hsplit hmodule hrecord =>
            obtain ⟨calls', hcalls', hgiven'⟩ := hrecord.detached
            refine ⟨calls', hcalls', fun p hp => ?_⟩
            obtain ⟨hdetaches, hholds⟩ := hgiven' p hp
            refine ⟨hdetaches, r, ?_, hmodule, hholds⟩
            dsimp only
            rw [hsplit]
            exact List.mem_append_right _ List.mem_cons_self
      obtain ⟨calls', hcalls', hgiven'⟩ := hstage
      refine ⟨calls ++ calls', by rw [hcalls', hcalls, List.append_assoc], fun p hp => ?_⟩
      obtain hbefore | hnow := List.mem_append.1 hp
      · exact hgiven p hbefore
      · exact (hgiven' p hnow).imp_right fun hholds hmapping => Course.holds hearlier hmapping hholds

/-- Where nothing may be given up, nothing is. -/
theorem Course.gives_up_nothing
    {host : Host σ} {x : Scope} {a b : Registry × Journal σ}
    (h : Course host.watched x a b)
    (hdetaches : x.detaches = false) :
    GivesUpNothing a.2 b.2 := by
  obtain ⟨calls, hcalls, hgiven⟩ := h.detached
  refine .of_mem hcalls fun p hp => ?_
  simp [hdetaches] at hgiven
  exact absurd hp (hgiven p)

end CallProfiler.Image
