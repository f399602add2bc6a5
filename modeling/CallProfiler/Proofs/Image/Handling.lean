import CallProfiler.Proofs.Image.Conduct
import CallProfiler.Proofs.Image.Records

/-!
# Whole acts of a registry

The functions of the registry preserve what `Underway` says, each by the recursion that it is defined
by; which patches the modules have is read off the records (`Holds`).

**Main statements.**
* `Underway.instantiate`, `Underway.endPatch`: one patch comes or goes.
* `Underway.apply`, `Underway.revert`: batches of requests and withdrawals.
* `Underway.followAll`: events, until one is abandoned.
* `Underway.close`: the end, after which no patch is left.
-/

namespace CallProfiler.Image

variable {σ : Type}

/-! ## The patches of records -/

/-- Records of the module hold the patch. -/
def Holds (records : List Record) (module p : Nat) : Prop :=
  ∃ r ∈ records, r.module = module ∧ r.patch? = some p

theorem holds_cons
    {r : Record} {records : List Record} {module p : Nat} :
    Holds (r :: records) module p ↔
      (r.module = module ∧ r.patch? = some p) ∨ Holds records module p := by
  simp only [Holds, List.exists_mem_cons_iff]

/-- A record lets go of its patch. -/
theorem holds_of_let_go
    {r bare : Record} {p : Nat}
    (hp : r.patch? = some p)
    (hbare : bare.patch? = none)
    (records : List Record) :
    (∀ module q, Holds (r :: records) module q → Holds (bare :: records) module q ∨ q = p) ∧
      ∀ module q, Holds (bare :: records) module q → Holds (r :: records) module q := by
  simp only [holds_cons, hp, hbare, Option.some.injEq, reduceCtorEq, and_false, false_or]
  refine ⟨?_, fun _ _ hq => .inr hq⟩
  rintro module q (⟨_, rfl⟩ | hq)
  · exact .inr rfl
  · exact .inl hq

theorem holds_of_holds_put
    {g : Registry} {r : Record} {module p : Nat} :
    Holds (g.put r).records module p → Holds (r :: g.records) module p := by
  rintro ⟨y, hy, hholds⟩
  exact ⟨y, List.mem_cons.2 (Registry.mem_of_mem_insertRecord hy), hholds⟩

/-- Only the record that gives way can lose its patch. -/
theorem holds_put_or
    {g : Registry} {r : Record} {module p : Nat} :
    Holds g.records module p → Holds (g.put r).records module p ∨
      ∃ old, g.find? r.module r.offset = some old ∧ old.module = module ∧ old.patch? = some p := by
  rintro ⟨y, hy, hholds⟩
  exact (Registry.mem_insertRecord_or_find? r hy).imp (fun hstays => ⟨y, hstays, hholds⟩)
    fun hfind => ⟨y, hfind, hholds⟩

/-- Where the record that gives way leaves its patch to the new one, nothing is lost. -/
theorem holds_put
    {g : Registry} {r : Record} {module p : Nat}
    (hkeeps : ∀ old, g.find? r.module r.offset = some old →
      ∀ p, old.patch? = some p → r.patch? = some p) :
    Holds (g.put r).records module p ↔ Holds (r :: g.records) module p := by
  refine ⟨holds_of_holds_put, ?_⟩
  have hself := Registry.self_mem_insertRecord r g.records
  rw [holds_cons]
  rintro (hmine | hothers)
  · exact ⟨r, hself, hmine⟩
  · obtain hstays | ⟨old, hfind, hmodule, hp⟩ := holds_put_or (r := r) hothers
    · exact hstays
    · have hkey := List.find?_some hfind
      simp only [Bool.and_eq_true, decide_eq_true_eq] at hkey
      exact ⟨r, hself, hkey.1.symm.trans hmodule, hkeeps old hfind p hp⟩

/-- A record in its place holds nothing more. -/
theorem holds_found
    {g : Registry} {r : Record} {module offset m p : Nat}
    (hfind : g.find? module offset = some r) :
    Holds (r :: g.records) m p ↔ Holds g.records m p := by
  have hr : r ∈ g.records := List.mem_of_find?_eq_some hfind
  simp only [Holds, List.exists_mem_cons_iff, or_iff_right_iff_imp]
  exact fun hholds => ⟨r, hr, hholds⟩

/-- What is left after the patches of a module were ended. -/
theorem holds_of_holds_closeRecords
    (host : Host σ) (locked : Bool) (module : Nat) (records : List Record) (s : σ) {m p : Nat} :
    Holds (Registry.closeRecords host locked module records s).1 m p →
      m ≠ module ∧ Holds records m p := by
  induction records generalizing s with
  | nil =>
      rintro ⟨r, hr, _⟩
      cases hr
  | cons r rest ih =>
      by_cases hmodule : r.module = module
      · cases hbacking : r.backing with
        | _ =>
            simp only [Registry.closeRecords, if_pos hmodule, Record.takePatch, hbacking, holds_cons]
            rintro (⟨_, hp⟩ | hrest)
            · simp [Record.patch?, hbacking] at hp
            · exact (ih _ hrest).imp_right .inr
      · simp only [Registry.closeRecords, if_neg hmodule, holds_cons]
        rintro (⟨rfl, hp⟩ | hrest)
        · exact ⟨hmodule, .inl ⟨rfl, hp⟩⟩
        · exact (ih _ hrest).imp_right .inr

theorem mem_foldr_modules
    {r : Record} {records : List Record}
    (hr : r ∈ records) :
    r.module ∈ records.foldr
      (fun r ms => if ms.head? = some r.module then ms else r.module :: ms) [] := by
  induction records with
  | nil =>
      cases hr
  | cons head rest ih =>
      rw [List.foldr_cons]
      split
      next hhead =>
        obtain rfl | hlater := List.mem_cons.1 hr
        · exact List.mem_of_head? hhead
        · exact ih hlater
      next =>
        obtain rfl | hlater := List.mem_cons.1 hr
        · exact List.mem_cons_self
        · exact List.mem_cons_of_mem _ (ih hlater)

/-- Every module with a patch is ended. -/
theorem mem_patchedModules
    {g : Registry} {module p : Nat} :
    Holds g.records module p → module ∈ g.patchedModules := by
  rintro ⟨r, hr, rfl, hp⟩
  refine mem_foldr_modules (List.mem_filter.2 ⟨hr, ?_⟩)
  cases hbacking : r.backing with
  | instantiated p => rfl
  | _ => simp [Record.patch?, hbacking] at hp

namespace Underway

variable {x : Errand} {covered : List Memory.Region} {own own' : Nat → Nat → Prop}
  {held : List Nat} {j : Journal σ} {module p : Nat} {mapping : Mapping}

theorem records
    {records records' : List Record}
    (h : Underway x covered (Holds records) held j)
    (hperm : records.Perm records') :
    Underway x covered (Holds records') held j :=
  h.congr fun module p => by simp only [Holds, hperm.mem_iff]

theorem append_nil
    {records : List Record} :
    Underway x covered (Holds (records ++ [])) held j ↔ Underway x covered (Holds records) held j := by
  rw [List.append_nil]

/-! ## Records -/

section Records

variable (host : Host σ)

/-- Switching the patch of a record on. -/
theorem switchOn
    {r : Record}
    (h : Underway x mapping.executableRegions own held j)
    (hcurrent : x.current r.module = some mapping)
    (hown : ∀ p, r.patch? = some p → own r.module p) :
    ∃ outcome j', r.switchOn host.watched j = (outcome, r, j') ∧
      Underway x mapping.executableRegions own held j' := by
  cases hbacking : r.backing with
  | instantiated p =>
      have hactivate := h.activate host hcurrent (hown p (by rw [Record.patch?, hbacking]))
      simp only [Record.switchOn, hbacking]
      cases hswitched : host.watched.activate p j with
      | mk switched j1 =>
          rw [hswitched] at hactivate
          cases switched <;> exact ⟨_, j1, rfl, hactivate⟩
  | _ =>
      refine ⟨some .unrecoverableError, j, ?_, h⟩
      simp only [Record.switchOn, hbacking]

/-- Building the patch of a record if there is none and switching it on; the record keeps the patch
that it has. -/
theorem instantiate
    {r : Record} {others : List Record}
    (h : Underway x mapping.executableRegions (Holds (r :: others)) held j)
    (hconcerned : x.concerned = some r.module)
    (hcurrent : x.current r.module = some mapping)
    (allocator : Option Nat) :
    ∃ outcome r' j', r.instantiate host.watched mapping allocator j = (outcome, r', j') ∧
      r'.request = r.request ∧ (∀ p, r.patch? = some p → r'.patch? = some p) ∧
      Underway x mapping.executableRegions (Holds (r' :: others)) held j' := by
  have hmine : ∀ p, r.patch? = some p → Holds (r :: others) r.module p :=
    fun p hp => ⟨r, List.mem_cons_self, rfl, hp⟩
  cases hbacking : r.backing with
  | absent =>
      have hnone : ∀ p, r.patch? ≠ some p := by simp [Record.patch?, hbacking]
      let broken : Record := { r with backing := .broken }
      have hbroken : ∀ {j1 : Journal σ} outcome,
          Underway x mapping.executableRegions (Holds (r :: others)) held j1 →
          r.instantiate host.watched mapping allocator j = (outcome, broken, j1) →
          ∃ outcome r' j', r.instantiate host.watched mapping allocator j = (outcome, r', j') ∧
            r'.request = r.request ∧ (∀ p, r.patch? = some p → r'.patch? = some p) ∧
            Underway x mapping.executableRegions (Holds (r' :: others)) held j' := by
        intro j1 outcome h1 hrun
        refine ⟨outcome, broken, j1, hrun, rfl, fun p hp => absurd hp (hnone p), h1.congr ?_⟩
        intro module p
        have hgone : broken.patch? ≠ some p := by
          intro hp
          cases hp
        simp only [holds_cons, hnone p, hgone, and_false]
      cases allocator with
      | none =>
          refine hbroken (some .unrecoverableError) h ?_
          simp only [Record.instantiate, hbacking, broken]
      | some a =>
          obtain ⟨built, j1, hbuild, h1⟩ :=
            h.build host hconcerned hcurrent r.offset r.size r.id a
          cases built with
          | refused =>
              refine hbroken (some .unrecoverableError) h1 ?_
              simp only [Record.instantiate, hbacking, hbuild, broken]
          | abandoned =>
              refine hbroken none h1 ?_
              simp only [Record.instantiate, hbacking, hbuild, broken]
          | built p =>
              let r' : Record := { r with backing := .instantiated p }
              have h2 : Underway x mapping.executableRegions (Holds (r' :: others)) held j1 := by
                refine h1.congr ?_
                intro module q
                have hnew : r'.module = module ∧ r'.patch? = some q ↔ module = r.module ∧ q = p := by
                  simp only [r', Record.patch?, Option.some.injEq]
                  exact and_congr eq_comm eq_comm
                simp only [holds_cons, hnone q, and_false, false_or, hnew]
                exact or_comm
              obtain ⟨outcome, j', hswitch, h'⟩ := h2.switchOn host (r := r') hcurrent
                fun q hq => ⟨r', List.mem_cons_self, rfl, hq⟩
              refine ⟨outcome, r', j', ?_, rfl, fun q hq => absurd hq (hnone q), h'⟩
              simp only [Record.instantiate, hbacking, hbuild]
              exact hswitch
  | broken =>
      obtain ⟨outcome, j', hswitch, h'⟩ := h.switchOn host hcurrent hmine
      refine ⟨outcome, r, j', ?_, rfl, fun _ hp => hp, h'⟩
      simp only [Record.instantiate, hbacking, hswitch]
  | instantiated p =>
      obtain ⟨outcome, j', hswitch, h'⟩ := h.switchOn host hcurrent hmine
      refine ⟨outcome, r, j', ?_, rfl, fun _ hp => hp, h'⟩
      simp only [Record.instantiate, hbacking, hswitch]

/-- Bringing the wanted patches of a module into memory. -/
theorem restoreRecords
    {others : List Record}
    (hconcerned : x.concerned = some module)
    (hcurrent : x.current module = some mapping)
    (allocator : Option Nat) (records : List Record)
    (h : Underway x mapping.executableRegions (Holds (records ++ others)) held j) :
    ∃ finished records' j',
      Registry.restoreRecords host.watched module mapping allocator records j =
        (finished, records', j') ∧
      Underway x mapping.executableRegions (Holds (records' ++ others)) held j' := by
  induction records generalizing others j with
  | nil =>
      exact ⟨true, [], j, rfl, h⟩
  | cons r rest ih =>
      by_cases hwanted : r.module = module ∧ r.isWanted
      · obtain ⟨outcome, r', j1, hinstantiate, _, _, h1⟩ :=
          h.instantiate host (hwanted.1 ▸ hconcerned) (hwanted.1 ▸ hcurrent) allocator
        cases outcome with
        | none =>
            refine ⟨false, r' :: rest, j1, ?_, h1⟩
            simp only [Registry.restoreRecords, if_pos hwanted, hinstantiate]
        | some outcome =>
            obtain ⟨finished, rest', j', hrest, h'⟩ := ih (h1.records List.perm_middle.symm)
            refine ⟨finished, r' :: rest', j', ?_, h'.records List.perm_middle⟩
            simp only [Registry.restoreRecords, if_pos hwanted, hinstantiate, hrest]
      · obtain ⟨finished, rest', j', hrest, h'⟩ := ih (h.records List.perm_middle.symm)
        refine ⟨finished, r :: rest', j', ?_, h'.records List.perm_middle⟩
        simp only [Registry.restoreRecords, if_neg hwanted, hrest]

/-- Giving up the patches of a module. -/
theorem detachRecords
    {others : List Record}
    (module : Nat) (records : List Record)
    (h : Underway x covered (Holds (records ++ others)) held j) :
    ∃ records' j', Registry.detachRecords host.watched module records j = (records', j') ∧
      Underway x covered (Holds (records' ++ others)) held j' := by
  induction records generalizing others j with
  | nil =>
      exact ⟨[], j, rfl, h⟩
  | cons r rest ih =>
      by_cases hmodule : r.module = module
      · cases hbacking : r.backing with
        | instantiated p =>
            let bare : Record := { r with backing := .absent }
            have h1 : Underway x covered (Holds (bare :: (rest ++ others))) held
                (host.watched.detach p j) := by
              have hp : r.patch? = some p := by rw [Record.patch?, hbacking]
              have hbare : bare.patch? = none := rfl
              have hgoes := holds_of_let_go hp hbare (rest ++ others)
              exact h.detach host hgoes.1 hgoes.2
            obtain ⟨rest', j', hrest, h'⟩ := ih (h1.records List.perm_middle.symm)
            refine ⟨bare :: rest', j', ?_, h'.records List.perm_middle⟩
            simp only [Registry.detachRecords, if_pos hmodule, Record.takePatch, hbacking, hrest]
            rfl
        | _ =>
            obtain ⟨rest', j', hrest, h'⟩ := ih (h.records List.perm_middle.symm)
            refine ⟨r :: rest', j', ?_, h'.records List.perm_middle⟩
            simp only [Registry.detachRecords, if_pos hmodule, Record.takePatch, hbacking, hrest]
      · obtain ⟨rest', j', hrest, h'⟩ := ih (h.records List.perm_middle.symm)
        refine ⟨r :: rest', j', ?_, h'.records List.perm_middle⟩
        simp only [Registry.detachRecords, if_neg hmodule, hrest]

/-- The patch of a record is ended, or given up if the code is not writable. -/
theorem endPatch
    {l : Option Lock}
    (h : Underway x (codeOf l) own held j)
    (hl : x.Places module l)
    (hp : own module p)
    (hkept : ∀ module q, own module q → own' module q ∨ q = p)
    (horigin : ∀ module q, own' module q → own module q) :
    Underway x (codeOf l) own' held
      (if l.isSome then host.watched.remove p (host.watched.revert p j)
        else host.watched.detach p j) := by
  cases l with
  | none =>
      exact h.detach host hkept horigin
  | some k =>
      exact (h.revertPatch host (hl k rfl) hp).remove host (hl k rfl) hp hkept horigin

/-- Ending the patches of a module. -/
theorem closeRecords
    {l : Option Lock} {others : List Record}
    (hl : x.Places module l)
    (records : List Record)
    (h : Underway x (codeOf l) (Holds (records ++ others)) held j) :
    ∃ records' j', Registry.closeRecords host.watched l.isSome module records j = (records', j') ∧
      Underway x (codeOf l) (Holds (records' ++ others)) held j' := by
  induction records generalizing others j with
  | nil =>
      exact ⟨[], j, rfl, h⟩
  | cons r rest ih =>
      by_cases hmodule : r.module = module
      · cases hbacking : r.backing with
        | instantiated p =>
            let bare : Record := { r with backing := .absent }
            have hp : r.patch? = some p := by rw [Record.patch?, hbacking]
            have hbare : bare.patch? = none := rfl
            have hgoes := holds_of_let_go hp hbare (rest ++ others)
            have h1 := h.endPatch host hl ⟨r, List.mem_cons_self, hmodule, hp⟩ hgoes.1 hgoes.2
            obtain ⟨rest', j', hrest, h'⟩ := ih (h1.records List.perm_middle.symm)
            refine ⟨bare :: rest', j', ?_, h'.records List.perm_middle⟩
            simp only [Registry.closeRecords, if_pos hmodule, Record.takePatch, hbacking, hrest]
            rfl
        | _ =>
            obtain ⟨rest', j', hrest, h'⟩ := ih (h.records List.perm_middle.symm)
            refine ⟨r :: rest', j', ?_, h'.records List.perm_middle⟩
            simp only [Registry.closeRecords, if_pos hmodule, Record.takePatch, hbacking, hrest]
      · obtain ⟨rest', j', hrest, h'⟩ := ih (h.records List.perm_middle.symm)
        refine ⟨r :: rest', j', ?_, h'.records List.perm_middle⟩
        simp only [Registry.closeRecords, if_neg hmodule, hrest]

/-! ## Requests -/

/-- The record of a function is in its place, and no patch comes or goes. -/
theorem record
    {g : Registry}
    (h : Underway x covered (Holds g.records) held j)
    (module : Nat) (t : Target) :
    ∃ r g', g.record module t = (r, g') ∧ g'.find? module t.offset = some r ∧
      r.module = module ∧ r.offset = t.offset ∧ g'.mappings = g.mappings ∧
      Underway x covered (Holds g'.records) held j := by
  cases hfind : g.find? module t.offset with
  | some r =>
      have hkey := List.find?_some hfind
      simp only [Bool.and_eq_true, decide_eq_true_eq] at hkey
      exact ⟨r, g, by simp only [Registry.record, hfind], hfind, hkey.1, hkey.2, rfl, h⟩
  | none =>
      let r : Record := ⟨module, t.offset, g.lastId + 1, t.size, .dormant, .absent⟩
      let g1 : Registry := { g with lastId := g.lastId + 1 }
      refine ⟨r, g1.put r, by simp only [Registry.record, hfind, r, g1], Registry.find?_put g1 r, rfl,
        rfl, rfl, h.congr ?_⟩
      intro m p
      have hkeeps : ∀ old, g1.find? r.module r.offset = some old →
          ∀ p, old.patch? = some p → r.patch? = some p := by
        intro old hold
        exact absurd (hfind.symm.trans hold) (by simp)
      have hnew : r.patch? ≠ some p := by
        intro hp
        cases hp
      rw [holds_put hkeeps, holds_cons]
      simp only [hnew, and_false, false_or, g1]

/-- Requesting a patch for one function. -/
theorem applyTarget
    {g : Registry} {l : Option Lock}
    (h : Underway x (codeOf l) (Holds g.records) held j)
    (hconcerned : x.concerned = some module)
    (hl : x.Places module l)
    (t : Target) :
    ∃ change g' j', Registry.applyTarget host.watched l module t g j = (change, g', j') ∧
      g'.mappings = g.mappings ∧ Underway x (codeOf l) (Holds g'.records) held j' := by
  obtain ⟨r, g1, hrecord, hfind, hmodule, hoffset, hmappings, h1⟩ := h.record module t
  have hput : ∀ {r' : Record} {j1 : Journal σ}, r'.request = { r with desired := .active }.request →
      (∀ p, r.patch? = some p → r'.patch? = some p) →
      Underway x (codeOf l) (Holds (r' :: g1.records)) held j1 →
      Underway x (codeOf l) (Holds (g1.put r').records) held j1 := by
    intro r' j1 hrequest hkeeps hr'
    have hplace : r'.module = module ∧ r'.offset = t.offset := by
      have hm := congrArg Record.module hrequest
      have ho := congrArg Record.offset hrequest
      exact ⟨hm.trans hmodule, ho.trans hoffset⟩
    refine hr'.congr fun m p => holds_put ?_
    intro old hold
    rw [hplace.1, hplace.2, hfind, Option.some.injEq] at hold
    exact hold ▸ hkeeps
  by_cases hbroken : r.backing = .broken
  · exact ⟨some (r.answer .unrecoverableError), g1, j,
      by simp only [Registry.applyTarget, hrecord, if_pos hbroken], hmappings, h1⟩
  by_cases hactive : r.status (host.watched.isActive · j) = .active
  · exact ⟨some (r.answer .unchanged), g1, j,
      by simp only [Registry.applyTarget, hrecord, if_neg hbroken, if_pos hactive], hmappings, h1⟩
  let wanted : Record := { r with desired := .active }
  have h2 : Underway x (codeOf l) (Holds (wanted :: g1.records)) held j := by
    refine h1.congr fun m p => ?_
    rw [← holds_found hfind (m := m) (p := p), holds_cons, holds_cons]
    rfl
  cases l with
  | none =>
      refine ⟨some (wanted.answer .activationError), g1.put wanted, j, ?_, hmappings,
        hput rfl (fun _ hp => hp) h2⟩
      simp only [Registry.applyTarget, hrecord, if_neg hbroken, if_neg hactive, wanted]
  | some k =>
      obtain ⟨outcome, r', j', hinstantiate, hrequest, hkeeps, h'⟩ :=
        h2.instantiate host (hmodule.symm ▸ hconcerned) (hmodule.symm ▸ hl k rfl) k.allocator
      refine ⟨outcome.map r'.answer, g1.put r', j', ?_, hmappings, hput hrequest hkeeps h'⟩
      simp only [Registry.applyTarget, hrecord, if_neg hbroken, if_neg hactive]
      simp only [wanted] at hinstantiate
      rw [hinstantiate]

/-- Requesting patches one after the other. -/
theorem applyTargets
    {g : Registry} {l : Option Lock}
    (h : Underway x (codeOf l) (Holds g.records) held j)
    (hconcerned : x.concerned = some module)
    (hl : x.Places module l)
    (targets : List Target) :
    ∃ changes g' j', Registry.applyTargets host.watched l module targets g j = (changes, g', j') ∧
      g'.mappings = g.mappings ∧ Underway x (codeOf l) (Holds g'.records) held j' := by
  induction targets generalizing g j with
  | nil =>
      exact ⟨some [], g, j, rfl, rfl, h⟩
  | cons t rest ih =>
      obtain ⟨change, g1, j1, happly, hmappings, h1⟩ := h.applyTarget host hconcerned hl t
      cases change with
      | none =>
          refine ⟨none, g1, j1, ?_, hmappings, h1⟩
          simp only [Registry.applyTargets, happly]
      | some change =>
          obtain ⟨changes, g', j', hrest, hmappings', h'⟩ := ih h1
          refine ⟨changes.map (change :: ·), g', j', ?_, hmappings'.trans hmappings, h'⟩
          simp only [Registry.applyTargets, happly, hrest]

/-- Withdrawing the request for one function. -/
theorem revertOffset
    {g : Registry} {l : Option Lock}
    (h : Underway x (codeOf l) (Holds g.records) held j)
    (hl : x.Places module l)
    (offset : Nat) :
    ∃ change g' j', Registry.revertOffset host.watched l.isSome module offset g j =
        (change, g', j') ∧
      g'.mappings = g.mappings ∧ Underway x (codeOf l) (Holds g'.records) held j' := by
  cases hfind : g.find? module offset with
  | none =>
      refine ⟨⟨0, offset, 0, .unchanged⟩, g, j, ?_, rfl, h⟩
      simp only [Registry.revertOffset, hfind]
  | some r =>
      by_cases hbroken : r.backing = .broken
      · refine ⟨r.answer .unrecoverableError, g, j, ?_, rfl, h⟩
        simp only [Registry.revertOffset, hfind, if_pos hbroken]
      by_cases hdormant : r.desired = .dormant
      · refine ⟨r.answer .unchanged, g, j, ?_, rfl, h⟩
        simp only [Registry.revertOffset, hfind, if_neg hbroken, if_pos hdormant]
      have hkey := List.find?_some hfind
      simp only [Bool.and_eq_true, decide_eq_true_eq] at hkey
      obtain ⟨rfl, rfl⟩ := hkey
      let dormant : Record := { r with desired := .dormant }
      have hturns : Underway x (codeOf l) (Holds (g.put dormant).records) held j := by
        refine h.congr fun m p => ?_
        rw [← holds_found hfind, holds_put, holds_cons, holds_cons]
        · rfl
        · intro old hold p hp
          rw [← Option.some.inj (hfind.symm.trans hold)] at hp
          exact hp
      cases hbacking : r.backing with
      | instantiated p =>
          have hp : r.patch? = some p := by rw [Record.patch?, hbacking]
          let bare : Record := { r with desired := .dormant, backing := .absent }
          have htake : ({ r with desired := .dormant } : Record).takePatch = (some p, bare) := by
            simp only [Record.takePatch, hbacking, bare]
          cases l with
          | none =>
              refine ⟨dormant.answer .ok, g.put dormant, j, ?_, rfl, hturns⟩
              simp only [Registry.revertOffset, hfind, if_neg hbroken, if_neg hdormant, htake]
              rfl
          | some k =>
              have hkept : ∀ m q, Holds g.records m q → Holds (g.put bare).records m q ∨ q = p := by
                intro m q hq
                refine (holds_put_or hq).imp_right ?_
                rintro ⟨old, hold, _, hq⟩
                rw [← Option.some.inj (hfind.symm.trans hold), hp] at hq
                exact (Option.some.inj hq).symm
              have horigin : ∀ m q, Holds (g.put bare).records m q → Holds g.records m q := by
                intro m q hq
                obtain ⟨_, hnone⟩ | hothers := holds_cons.1 (holds_of_holds_put hq)
                · cases hnone
                · exact hothers
              have hr := List.mem_of_find?_eq_some hfind
              have hends := h.endPatch host hl ⟨r, hr, rfl, hp⟩ hkept horigin
              refine ⟨bare.answer .ok, g.put bare, _, ?_, rfl, hends⟩
              simp only [Registry.revertOffset, hfind, if_neg hbroken, if_neg hdormant, htake]
              rfl
      | _ =>
          have htake : ({ r with desired := .dormant } : Record).takePatch = (none, dormant) := by
            simp only [Record.takePatch, hbacking, dormant]
          refine ⟨dormant.answer .ok, g.put dormant, j, ?_, rfl, hturns⟩
          simp only [Registry.revertOffset, hfind, if_neg hbroken, if_neg hdormant, htake]

/-- Withdrawing requests one after the other. -/
theorem revertOffsets
    {g : Registry} {l : Option Lock}
    (h : Underway x (codeOf l) (Holds g.records) held j)
    (hl : x.Places module l)
    (offsets : List Nat) :
    ∃ changes g' j', Registry.revertOffsets host.watched l.isSome module offsets g j =
        (changes, g', j') ∧
      g'.mappings = g.mappings ∧ Underway x (codeOf l) (Holds g'.records) held j' := by
  induction offsets generalizing g j with
  | nil =>
      exact ⟨[], g, j, rfl, rfl, h⟩
  | cons offset rest ih =>
      obtain ⟨change, g1, j1, hrevert, hmappings, h1⟩ := h.revertOffset host hl offset
      obtain ⟨changes, g', j', hrest, hmappings', h'⟩ := ih h1
      refine ⟨change :: changes, g', j', ?_, hmappings'.trans hmappings, h'⟩
      simp only [Registry.revertOffsets, hrevert, hrest]

end Records

/-! ## Whole acts -/

section Acts

variable (host : Host σ) {g : Registry} {pin : Nat → Option Mapping}

/-- A batch of requests. -/
theorem apply
    (h : Underway x [] (Holds g.records) held j)
    (hpin : x.Pins pin g)
    (hconcerned : x.concerned = some module)
    (targets : List Target) :
    ∃ changes g' j', g.apply host.watched pin module targets j = (changes, g', j') ∧
      g'.mappings = g.mappings ∧ Underway x [] (Holds g'.records) held j' := by
  obtain ⟨l, j1, hlock, hl, h1⟩ := h.lock host hpin module
  obtain ⟨changes, g', j2, happly, hmappings, h2⟩ := h1.applyTargets host hconcerned hl targets
  refine ⟨changes, g', _, ?_, hmappings, h2.unlock host⟩
  simp only [Registry.apply, hlock, happly]

/-- A batch of withdrawals. -/
theorem revert
    (h : Underway x [] (Holds g.records) held j)
    (hpin : x.Pins pin g)
    (module : Nat) (offsets : List Nat) :
    ∃ changes g' j', g.revert host.watched pin module offsets j = (changes, g', j') ∧
      g'.mappings = g.mappings ∧ Underway x [] (Holds g'.records) held j' := by
  obtain ⟨l, j1, hlock, hl, h1⟩ := h.lock host hpin module
  obtain ⟨changes, g', j2, hrevert, hmappings, h2⟩ := h1.revertOffsets host hl offsets
  refine ⟨changes, g', _, ?_, hmappings, h2.unlock host⟩
  simp only [Registry.revert, hlock, hrevert]

theorem dropKnown
    (h : Underway x covered own held j)
    (known : Option KnownMapping) :
    Underway x covered own held (Registry.dropKnown host.watched known j) := by
  unfold Registry.dropKnown
  cases known.bind (·.allocator) with
  | none => exact h
  | some a =>
      exact h.idle_call (c := .dropAllocator a) rfl rfl ⟨rfl, fun _ => rfl⟩ trivial
        (by simp [Errand.Builds])

theorem allocatorFor
    (h : Underway x covered own held j)
    (mapping : Mapping) :
    Underway x covered own held (Registry.allocatorFor host.watched mapping j).2 := by
  unfold Registry.allocatorFor
  cases mapping.executableSpan with
  | none => exact h
  | some span =>
      exact h.idle_call (c := .createAllocator span) rfl rfl ⟨rfl, fun _ => rfl⟩ trivial
        (by simp [Errand.Builds])

/-- A module is mapped. -/
theorem mapped
    (h : Underway x [] (Holds g.records) held j)
    (hcurrent : x.current module = some mapping)
    (hready : g.records = [] ∨ x.concerned = some module)
    (id : Nat) :
    ∃ finished g' j', g.mapped host.watched module id mapping j = (finished, g', j') ∧
      (g.records = [] → g'.records = []) ∧
      (∀ k ∈ g'.mappings, k ∈ g.mappings ∨ (k.module = module ∧ k.mapping = id)) ∧
      Underway x [] (Holds g'.records) held j' := by
  obtain ⟨allocator, j1, hallocator⟩ :
      ∃ a j1, Registry.allocatorFor host.watched mapping j = (a, j1) := ⟨_, _, rfl⟩
  have h1 := h.allocatorFor host mapping
  rw [hallocator] at h1
  obtain ⟨g2, j2, hlearn⟩ : ∃ g2 j2, g.learn host.watched module id allocator j1 = (g2, j2) :=
    ⟨_, _, rfl⟩
  have hrecords : g2.records = g.records := by
    cases hlearn
    rfl
  have hmappings : ∀ k ∈ g2.mappings, k ∈ g.mappings ∨ (k.module = module ∧ k.mapping = id) := by
    cases hlearn
    intro k hk
    refine (List.mem_append.1 hk).imp (fun hold => (List.mem_filter.1 hold).1) fun hnew => ?_
    rw [List.mem_singleton.1 hnew]
    exact ⟨rfl, rfl⟩
  have h2 : Underway x [] (Holds g2.records) held j2 := by
    have hdrop := h1.dropKnown host (g.mappings.find? (·.module = module))
    rw [hrecords]
    cases hlearn
    exact hdrop
  simp only [Registry.mapped, hallocator, hlearn]
  by_cases hwanted : g2.records.any fun r => r.module = module && r.isWanted
  · rw [if_pos hwanted]
    have hconcerned : x.concerned = some module := by
      refine hready.resolve_left fun hempty => ?_
      rw [hrecords, hempty] at hwanted
      cases hwanted
    obtain ⟨guards, j3, hrelax, h3⟩ := h2.relax host hcurrent
    rw [hrelax]
    cases guards with
    | none =>
        exact ⟨true, g2, j3, rfl, fun hempty => hrecords.trans hempty, hmappings, h3⟩
    | some guards =>
        obtain ⟨finished, records', j4, hrestore, h4⟩ :=
          (append_nil.2 h3).restoreRecords host hconcerned hcurrent allocator g2.records
        refine ⟨finished, { g2 with records := records' }, _, ?_, ?_, hmappings,
          (append_nil.1 h4).releaseAll host guards⟩
        · simp only [hrestore]
        · intro hempty
          rw [hrecords, hempty] at hwanted
          cases hwanted
  · rw [if_neg hwanted]
    exact ⟨true, g2, j2, rfl, fun hempty => hrecords.trans hempty, hmappings, h2⟩

/-- A mapping goes away. -/
theorem unmapped
    (h : Underway x [] (Holds g.records) held j)
    (id : Nat) :
    ∃ g' j', g.unmapped host.watched id j = (g', j') ∧
      (g.records = [] → g'.records = []) ∧ (∀ k ∈ g'.mappings, k ∈ g.mappings) ∧
      Underway x [] (Holds g'.records) held j' := by
  cases hlookup : g.modules.lookup id with
  | none =>
      refine ⟨g, j, ?_, fun hempty => hempty, fun k hk => hk, h⟩
      simp only [Registry.unmapped, hlookup]
  | some module =>
      obtain ⟨records', j1, hdetach, h1⟩ := (append_nil.2 h).detachRecords host module g.records
      let isGone (k : KnownMapping) : Bool := k.module = module && k.mapping = id
      let g' : Registry :=
        { g with
          records := records'
          mappings := g.mappings.filter (!isGone ·)
          modules := g.modules.filter (·.1 ≠ id) }
      have h' : Underway x [] (Holds g'.records) held
          (Registry.dropKnown host.watched (g.mappings.find? isGone) j1) :=
        (append_nil.1 h1).dropKnown host _
      refine ⟨g', _, ?_, ?_, fun k hk => (List.mem_filter.1 hk).1, h'⟩
      · simp only [Registry.unmapped, hlookup, hdetach]
        rfl
      · intro hempty
        rw [hempty] at hdetach
        cases hdetach
        rfl

/-- Events, until one is abandoned. -/
theorem followAll
    (events : List Event)
    (h : Underway x [] (Holds g.records) held j)
    (hcurrent : ∀ module id mapping, .mapped module id mapping ∈ events →
      x.current module = some mapping)
    (hready : g.records = [] ∨ ∀ module id mapping, .mapped module id mapping ∈ events →
      x.concerned = some module) :
    ∃ finished g' j', Registry.followAll host.watched events g j = (finished, g', j') ∧
      (∀ k ∈ g'.mappings, k ∈ g.mappings ∨
        ∃ mapping, .mapped k.module k.mapping mapping ∈ events) ∧
      Underway x [] (Holds g'.records) held j' := by
  induction events generalizing g j with
  | nil =>
      exact ⟨true, g, j, rfl, fun k hk => .inl hk, h⟩
  | cons e rest ih =>
      have hfirst : ∃ finished g1 j1, g.follow host.watched e j = (finished, g1, j1) ∧
          (g.records = [] → g1.records = []) ∧
          (∀ k ∈ g1.mappings, k ∈ g.mappings ∨ ∃ mapping, e = .mapped k.module k.mapping mapping) ∧
          Underway x [] (Holds g1.records) held j1 := by
        cases e with
        | mapped module id mapping =>
            have hconcerned : g.records = [] ∨ x.concerned = some module :=
              hready.imp_right fun hall => hall module id mapping List.mem_cons_self
            obtain ⟨finished, g1, j1, hmapped, hempty, hmappings, h1⟩ :=
              h.mapped host (hcurrent module id mapping List.mem_cons_self) hconcerned id
            refine ⟨finished, g1, j1, hmapped, hempty, ?_, h1⟩
            intro k hk
            refine (hmappings k hk).imp_right ?_
            rintro ⟨rfl, rfl⟩
            exact ⟨mapping, rfl⟩
        | unmapped id =>
            obtain ⟨g1, j1, hunmapped, hempty, hmappings, h1⟩ := h.unmapped host id
            exact ⟨true, g1, j1, by rw [Registry.follow, hunmapped], hempty,
              fun k hk => .inl (hmappings k hk), h1⟩
      obtain ⟨finished, g1, j1, hfollow, hempty, hmappings1, h1⟩ := hfirst
      have hearlier : ∀ k ∈ g1.mappings, k ∈ g.mappings ∨
          ∃ mapping, .mapped k.module k.mapping mapping ∈ e :: rest := by
        intro k hk
        refine (hmappings1 k hk).imp_right ?_
        rintro ⟨mapping, rfl⟩
        exact ⟨mapping, List.mem_cons_self⟩
      cases finished with
      | false =>
          refine ⟨false, g1, j1, ?_, hearlier, h1⟩
          simp only [Registry.followAll, hfollow]
      | true =>
          obtain ⟨finished, g', j', hrest, hmappings', h'⟩ := ih h1
            (fun module id mapping he => hcurrent module id mapping (List.mem_cons_of_mem e he))
            (hready.imp hempty fun hall module id mapping he =>
              hall module id mapping (List.mem_cons_of_mem e he))
          refine ⟨finished, g', j', ?_, ?_, h'⟩
          · simp only [Registry.followAll, hfollow, hrest]
          · intro k hk
            obtain hbefore | ⟨mapping, he⟩ := hmappings' k hk
            · exact hearlier k hbefore
            · exact .inr ⟨mapping, List.mem_cons_of_mem e he⟩

/-- The patches of a module are ended. -/
theorem closeModule
    (h : Underway x [] (Holds g.records) held j)
    (hpin : x.Pins pin g)
    (module : Nat) :
    ∃ g' j', g.closeModule host.watched pin module j = (g', j') ∧ g'.mappings = g.mappings ∧
      (∀ m p, Holds g'.records m p → m ≠ module ∧ Holds g.records m p) ∧
      Underway x [] (Holds g'.records) held j' := by
  obtain ⟨l, j1, hlock, hl, h1⟩ := h.lock host hpin module
  obtain ⟨records', j2, hclose, h2⟩ := (append_nil.2 h1).closeRecords host hl g.records
  refine ⟨{ g with records := records' }, _, ?_, rfl, ?_, (append_nil.1 h2).unlock host⟩
  · simp only [Registry.closeModule, hlock, hclose]
  · intro m p hp
    refine holds_of_holds_closeRecords host.watched l.isSome module g.records j1 ?_
    rw [hclose]
    exact hp

/-- The patches of modules are ended, module by module. -/
theorem closeModules
    (h : Underway x [] (Holds g.records) held j)
    (hpin : x.Pins pin g)
    (modules : List Nat) :
    ∃ g' j', modules.foldl (fun (g, s) m => Registry.closeModule host.watched pin m g s) (g, j) =
        (g', j') ∧
      (∀ m p, Holds g'.records m p → m ∉ modules ∧ Holds g.records m p) ∧
      Underway x [] (Holds g'.records) held j' := by
  induction modules generalizing g j with
  | nil =>
      exact ⟨g, j, rfl, fun m p hp => ⟨List.not_mem_nil, hp⟩, h⟩
  | cons module rest ih =>
      obtain ⟨g1, j1, hclose, hmappings, hleft1, h1⟩ := h.closeModule host hpin module
      obtain ⟨g', j', hrest, hleft, h'⟩ := ih h1 (hpin.of_mappings hmappings)
      refine ⟨g', j', ?_, ?_, h'⟩
      · rw [List.foldl_cons]
        simp only [hclose]
        exact hrest
      · intro m p hp
        obtain ⟨hnot, hp1⟩ := hleft m p hp
        obtain ⟨hne, hp0⟩ := hleft1 m p hp1
        exact ⟨List.not_mem_cons_of_ne_of_not_mem hne hnot, hp0⟩

/-- The allocators of known mappings are dropped. -/
theorem dropAll
    (known : List KnownMapping)
    (h : Underway x covered own held j) :
    Underway x covered own held
      (known.foldl (fun s k => Registry.dropKnown host.watched (some k) s) j) := by
  induction known generalizing j with
  | nil => exact h
  | cons k rest ih => exact ih (h.dropKnown host (some k))

/-- All patches are ended, and nothing is left. -/
theorem close
    (h : Underway x [] (Holds g.records) held j)
    (hpin : x.Pins pin g) :
    Underway x [] (fun _ _ => False) held (g.close host.watched pin j) := by
  obtain ⟨g', j', hclosed, hleft, h'⟩ := h.closeModules host hpin g.patchedModules
  have hnothing : Underway x [] (fun _ _ => False) held j' := by
    refine h'.congr fun m p => ⟨False.elim, fun hp => ?_⟩
    obtain ⟨hnot, hp0⟩ := hleft m p hp
    exact hnot (mem_patchedModules hp0)
  unfold Registry.close
  rw [hclosed]
  exact hnothing.dropAll host g'.mappings

end Acts

end Underway

end CallProfiler.Image
