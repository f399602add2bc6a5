import CallProfiler.Proofs.Image.Records
import Mathlib.Logic.Relation

/-!
# What a registry does, stage by stage

Serving a request or following an event takes many small stages: a call of the host that has nothing to
do with patches, a new record, or one step of one record, which may build, switch, end or give up its
patch.  A stage leaves a whole registry behind, also when the host abandons what comes next.  So what
every stage preserves holds at every moment, whatever goes wrong.

A `Scope` says what the stages of a part of an act have in common: the module, the mapping for which
patches are built, and whether patches are ended or given up.

**Main statements.**
* `Record.Stage`, `Registry.Stage`: the stages; `Course`: stages one after the other.
* `Course.apply`, `Course.revert`, `Course.mapped`, `Course.unmapped`, `Course.closeModule`: everything a
  registry does goes by stages.
* `Course.endures`, `Course.frame`: no record is lost, and other modules are left alone.
-/

namespace CallProfiler.Image

open Relation

variable {σ : Type}

/-! ## Stages -/

/-- What a part of an act may do. -/
structure Scope where
  /-- Only records of this module are concerned. -/
  module : Nat
  /-- Patches are built for this mapping only. -/
  mapping : Option Mapping
  /-- Patches may be ended. -/
  removes : Bool
  /-- Patches may be given up. -/
  detaches : Bool
  /-- Mappings may become known, or be forgotten. -/
  learns : Bool

/-- A call of a host that has nothing to do with patches. -/
inductive Host.Prepares (host : Host σ) : σ → σ → Prop
  | createAllocator (span : Memory.Range) (s : σ) : Prepares host s (host.createAllocator span s).2
  | dropAllocator (a : Nat) (s : σ) : Prepares host s (host.dropAllocator a s)
  | protect (region : Memory.Region) (s : σ) : Prepares host s (host.protect region s).2
  | release (guard : Nat) (s : σ) : Prepares host s (host.release guard s)

/-- What happens to a record and its patch at one time. -/
inductive Record.Stage (host : Host σ) (x : Scope) : Record × σ → Record × σ → Prop
  | ask (r : Record) (s : σ) (desired : Desired) : Stage host x (r, s) ({ r with desired }, s)
  /-- There is no memory to build a patch in. -/
  | lack {r : Record} (s : σ) :
    r.backing = .absent → Stage host x (r, s) ({ r with backing := .broken }, s)
  /-- Building the patch is refused or abandoned. -/
  | fail {r : Record} {mapping : Mapping} {a : Nat} {built : Built} {s s' : σ} :
    r.backing = .absent → x.mapping = some mapping →
    host.build ⟨mapping.addressOf r.offset, r.size, r.id⟩ a s = (built, s') →
    (∀ p, built ≠ .built p) → Stage host x (r, s) ({ r with backing := .broken }, s')
  | build {r : Record} {mapping : Mapping} {a p : Nat} {s s' : σ} :
    r.backing = .absent → x.mapping = some mapping →
    host.build ⟨mapping.addressOf r.offset, r.size, r.id⟩ a s = (.built p, s') →
    Stage host x (r, s) ({ r with backing := .instantiated p }, s')
  | activate {r : Record} {p : Nat} (s : σ) :
    r.backing = .instantiated p → Stage host x (r, s) (r, (host.activate p s).2)
  | remove {r : Record} {p : Nat} (s : σ) :
    x.removes = true → r.backing = .instantiated p →
    Stage host x (r, s) ({ r with backing := .absent }, host.remove p (host.revert p s))
  | detach {r : Record} {p : Nat} (s : σ) :
    x.detaches = true → r.backing = .instantiated p →
    Stage host x (r, s) ({ r with backing := .absent }, host.detach p s)

/-- What happens to a registry at one time. -/
inductive Registry.Stage (host : Host σ) (x : Scope) : Registry × σ → Registry × σ → Prop
  | tables (g : Registry) (s : σ) (mappings : List KnownMapping) (modules : List (Nat × Nat)) :
    x.learns = true → Stage host x (g, s) ({ g with mappings, modules }, s)
  | prepare (g : Registry) {s s' : σ} : host.Prepares s s' → Stage host x (g, s) (g, s')
  /-- There is a new record. -/
  | create {g : Registry} {r : Record} {pre post : List Record} (s : σ) :
    g.records = pre ++ post → r.module = x.module → r.id = g.lastId + 1 → r.backing = .absent →
    InOrder (pre ++ r :: post) →
    Stage host x (g, s) ({ g with lastId := g.lastId + 1, records := pre ++ r :: post }, s)
  | record {g : Registry} {r r' : Record} {pre post : List Record} {s s' : σ} :
    g.records = pre ++ r :: post → r.module = x.module → Record.Stage host x (r, s) (r', s') →
    Stage host x (g, s) ({ g with records := pre ++ r' :: post }, s')

/-- Stages one after the other. -/
abbrev Course (host : Host σ) (x : Scope) : Registry × σ → Registry × σ → Prop :=
  ReflTransGen (Registry.Stage host x)

/-! ## What stays as it is -/

/-- What a record is for does not change, and what is broken stays broken. -/
structure Record.Endures (r r' : Record) : Prop where
  module : r'.module = r.module
  offset : r'.offset = r.offset
  id : r'.id = r.id
  size : r'.size = r.size
  broken : r.backing = .broken → r'.backing = .broken

namespace Record

variable {host : Host σ} {x : Scope} {r r' r'' : Record} {s s' : σ}

theorem Endures.refl
    (r : Record) :
    r.Endures r :=
  ⟨rfl, rfl, rfl, rfl, fun hbroken => hbroken⟩

theorem Endures.trans
    (h : r.Endures r')
    (h' : r'.Endures r'') :
    r.Endures r'' where
  module := h'.module.trans h.module
  offset := h'.offset.trans h.offset
  id := h'.id.trans h.id
  size := h'.size.trans h.size
  broken := fun hbroken => h'.broken (h.broken hbroken)

/-- **A record endures** whatever happens to it. -/
theorem Stage.endures
    (h : Stage host x (r, s) (r', s')) :
    r.Endures r' := by
  cases h with
  | ask => exact ⟨rfl, rfl, rfl, rfl, fun hbroken => hbroken⟩
  | lack => exact ⟨rfl, rfl, rfl, rfl, fun _ => rfl⟩
  | fail => exact ⟨rfl, rfl, rfl, rfl, fun _ => rfl⟩
  | build habsent =>
      refine ⟨rfl, rfl, rfl, rfl, fun hbroken => ?_⟩
      rw [habsent] at hbroken
      cases hbroken
  | activate => exact Endures.refl r
  | remove s hremoves hbacking =>
      refine ⟨rfl, rfl, rfl, rfl, fun hbroken => ?_⟩
      rw [hbacking] at hbroken
      cases hbroken
  | detach s hdetaches hbacking =>
      refine ⟨rfl, rfl, rfl, rfl, fun hbroken => ?_⟩
      rw [hbacking] at hbroken
      cases hbroken

/-- What exists stays, if no patch is ended or given up. -/
theorem Stage.backing_ne_absent
    (h : Stage host x (r, s) (r', s'))
    (hremoves : x.removes = false)
    (hdetaches : x.detaches = false)
    (hbacking : r.backing ≠ .absent) :
    r'.backing ≠ .absent := by
  cases h with
  | ask | activate => exact hbacking
  | lack | fail | build => simp
  | remove s hends => simp [hremoves] at hends
  | detach s hends => simp [hdetaches] at hends

/-- A patch that was not built was there before. -/
theorem Stage.patch_origin
    (h : Stage host x (r, s) (r', s'))
    (hmapping : x.mapping = none)
    {p : Nat}
    (hp : r'.patch? = some p) :
    r.patch? = some p := by
  cases h with
  | ask | activate => exact hp
  | lack | remove | detach => cases hp
  | fail habsent hplace | build habsent hplace => simp [hmapping] at hplace

/-- The order of records depends on what they are for. -/
theorem Endures.inOrder
    (h : r.Endures r')
    {pre post : List Record}
    (horder : InOrder (pre ++ r :: post)) :
    InOrder (pre ++ r' :: post) := by
  obtain ⟨hpre, hrest, hacross⟩ := List.pairwise_append.1 horder
  obtain ⟨hhead, hpost⟩ := List.pairwise_cons.1 hrest
  refine List.pairwise_append.2 ⟨hpre, List.pairwise_cons.2 ⟨?_, hpost⟩, ?_⟩
  · intro y hy
    rw [before, h.module, h.offset]
    exact hhead y hy
  · intro y hy z hz
    obtain rfl | hlater := List.mem_cons.1 hz
    · rw [h.module, h.offset]
      exact hacross y hy r List.mem_cons_self
    · exact hacross y hy z (List.mem_cons_of_mem r hlater)

end Record

namespace Course

variable {host : Host σ} {x : Scope} {a b : Registry × σ}

/-- What every stage preserves holds after a course. -/
theorem preserves
    {P : Registry × σ → Prop}
    (hstage : ∀ a b, Registry.Stage host x a b → P a → P b)
    (h : Course host x a b)
    (ha : P a) :
    P b := by
  induction h with
  | refl => exact ha
  | tail _ hlast ih => exact hstage _ _ hlast ih

/-- Records that stand one after the other in order stay so. -/
theorem inOrder
    (h : Course host x a b)
    (horder : InOrder a.1.records) :
    InOrder b.1.records := by
  refine h.preserves (P := fun a => InOrder a.1.records) ?_ horder
  intro a b hstage ha
  cases hstage with
  | tables => exact ha
  | prepare g hcall => exact ha
  | create s hsplit hmodule hid habsent hnew => exact hnew
  | record hsplit hmodule hrecord =>
      dsimp only at ha ⊢
      rw [hsplit] at ha
      exact hrecord.endures.inOrder ha

/-- **No record is lost**, and if no patch is ended or given up, none is left without what it had. -/
theorem endures
    (h : Course host x a b)
    {r : Record}
    (hr : r ∈ a.1.records) :
    ∃ r' ∈ b.1.records, r.Endures r' ∧
      (x.removes = false → x.detaches = false → r.backing ≠ .absent → r'.backing ≠ .absent) := by
  induction h with
  | refl => exact ⟨r, hr, Record.Endures.refl r, fun _ _ hbacking => hbacking⟩
  | tail _ hlast ih =>
      obtain ⟨r1, hr1, hendures, hstays⟩ := ih
      cases hlast with
      | tables => exact ⟨r1, hr1, hendures, hstays⟩
      | prepare g hcall => exact ⟨r1, hr1, hendures, hstays⟩
      | create s hsplit hmodule hid habsent hnew =>
          dsimp only at hr1
          rw [hsplit] at hr1
          exact ⟨r1, List.perm_middle.mem_iff.2 (List.mem_cons_of_mem _ hr1), hendures, hstays⟩
      | record hsplit hmodule hrecord =>
          dsimp only at hr1
          rw [hsplit, List.perm_middle.mem_iff] at hr1
          obtain rfl | hother := List.mem_cons.1 hr1
          · refine ⟨_, List.perm_middle.mem_iff.2 List.mem_cons_self,
              hendures.trans hrecord.endures, ?_⟩
            exact fun hremoves hdetaches hbacking => hrecord.backing_ne_absent hremoves hdetaches
              (hstays hremoves hdetaches hbacking)
          · exact ⟨r1, List.perm_middle.mem_iff.2 (List.mem_cons_of_mem _ hother), hendures, hstays⟩

/-- Where no patches are built, those there are were there before. -/
theorem origin
    (h : Course host x a b)
    (hmapping : x.mapping = none)
    {r' : Record} {p : Nat}
    (hr' : r' ∈ b.1.records)
    (hp : r'.patch? = some p) :
    ∃ r ∈ a.1.records, r.Endures r' ∧ r.patch? = some p := by
  induction h generalizing r' with
  | refl => exact ⟨r', hr', Record.Endures.refl r', hp⟩
  | tail _ hlast ih =>
      cases hlast with
      | tables => exact ih hr' hp
      | prepare g hcall => exact ih hr' hp
      | create s hsplit hmodule hid habsent hnew =>
          obtain rfl | hold := List.mem_cons.1 (List.perm_middle.mem_iff.1 hr')
          · simp [Record.patch?, habsent] at hp
          · exact ih (by dsimp only; rw [hsplit]; exact hold) hp
      | record hsplit hmodule hrecord =>
          obtain rfl | hother := List.mem_cons.1 (List.perm_middle.mem_iff.1 hr')
          · obtain ⟨r, hr, hendures, hr0⟩ :=
              ih (by dsimp only; rw [hsplit]; simp) (hrecord.patch_origin hmapping hp)
            exact ⟨r, hr, hendures.trans hrecord.endures, hr0⟩
          · refine ih ?_ hp
            dsimp only
            rw [hsplit]
            exact List.perm_middle.mem_iff.2 (List.mem_cons_of_mem _ hother)

/-- Where no mapping becomes known and none is forgotten, the registry knows what it knew. -/
theorem tables
    (h : Course host x a b)
    (hlearns : x.learns = false) :
    b.1.mappings = a.1.mappings ∧ b.1.modules = a.1.modules := by
  refine h.preserves
    (P := fun b => b.1.mappings = a.1.mappings ∧ b.1.modules = a.1.modules) ?_ ⟨rfl, rfl⟩
  intro b c hstage hb
  cases hstage with
  | tables g s mappings modules hchange => simp [hlearns] at hchange
  | prepare | create | record => exact hb

/-- **Other modules are left alone.** -/
theorem frame
    (h : Course host x a b)
    {module : Nat}
    (hother : module ≠ x.module) :
    b.1.records.filter (·.module = module) = a.1.records.filter (·.module = module) := by
  induction h with
  | refl => rfl
  | tail _ hlast ih =>
      refine Eq.trans ?_ ih
      cases hlast with
      | tables => rfl
      | prepare g hcall => rfl
      | create s hsplit hmodule hid habsent hnew =>
          dsimp only
          rw [hsplit, List.filter_append, List.filter_append, List.filter_cons_of_neg]
          simp [hmodule, hother.symm]
      | record hsplit hmodule hrecord =>
          dsimp only
          have hmodule' := hrecord.endures.module
          rw [hsplit, List.filter_append, List.filter_append, List.filter_cons_of_neg,
            List.filter_cons_of_neg]
          · simp [hmodule, hother.symm]
          · simp [hmodule', hmodule, hother.symm]

end Course

/-! ## Everything goes by stages -/

section Calls

variable (host : Host σ)

theorem Host.releaseAll_prepares
    (guards : List Nat) (s : σ) :
    ReflTransGen host.Prepares s (host.releaseAll guards s) := by
  induction guards generalizing s with
  | nil => exact .refl
  | cons guard rest ih => exact .head (.release guard s) (ih _)

theorem Host.relaxFrom_prepares
    (regions : List Memory.Region) (taken : List Nat) (s : σ) :
    ReflTransGen host.Prepares s (host.relaxFrom taken regions s).2 := by
  induction regions generalizing taken s with
  | nil => exact .refl
  | cons region rest ih =>
      have hprotect : host.Prepares s (host.protect region s).2 := .protect region s
      unfold Host.relaxFrom
      cases hgiven : host.protect region s with
      | mk guard s1 =>
          rw [hgiven] at hprotect
          cases guard with
          | none => exact .head hprotect (host.releaseAll_prepares taken s1)
          | some guard => exact .head hprotect (ih (taken ++ [guard]) s1)

theorem Host.relax_prepares
    (mapping : Mapping) (s : σ) :
    ReflTransGen host.Prepares s (host.relax mapping s).2 :=
  host.relaxFrom_prepares mapping.executableRegions [] s

namespace Registry

theorem lock_prepares
    (pin : Nat → Option Mapping) (g : Registry) (module : Nat) (s : σ) :
    ReflTransGen host.Prepares s (g.lock host pin module s).2 := by
  unfold lock
  split
  · exact .refl
  · split
    · exact .refl
    · next mapping hpin =>
        have hrelax := host.relax_prepares mapping s
        split
        next s1 hgiven =>
          rw [hgiven] at hrelax
          exact hrelax
        next guards s1 hgiven =>
          rw [hgiven] at hrelax
          exact hrelax

theorem unlock_prepares
    (l : Option Lock) (s : σ) :
    ReflTransGen host.Prepares s (unlock host l s) := by
  cases l with
  | none => exact .refl
  | some l => exact host.releaseAll_prepares l.guards s

theorem dropKnown_prepares
    (known : Option KnownMapping) (s : σ) :
    ReflTransGen host.Prepares s (dropKnown host known s) := by
  unfold dropKnown
  split
  · exact .refl
  · exact .single (.dropAllocator _ s)

theorem allocatorFor_prepares
    (mapping : Mapping) (s : σ) :
    ReflTransGen host.Prepares s (allocatorFor host mapping s).2 := by
  unfold allocatorFor
  split
  · exact .refl
  · exact .single (.createAllocator _ s)

end Registry

end Calls

namespace Record

section Stages

variable (host : Host σ) {x : Scope}

theorem switchOn_stages
    (r : Record) (s : σ) :
    ReflTransGen (Stage host x) (r, s) (r.switchOn host s).2 := by
  unfold switchOn
  split
  · next p hbacking =>
      have hactivate : Stage host x (r, s) (r, (host.activate p s).2) := .activate s hbacking
      split
      all_goals
        next s1 hgiven =>
          rw [hgiven] at hactivate
          exact .single hactivate
  · exact .refl

/-- A patch is built if there is none, and switched on. -/
theorem instantiate_stages
    {mapping : Mapping} {allocator : Option Nat}
    (hmapping : allocator.isSome → x.mapping = some mapping)
    (r : Record) (s : σ) :
    ReflTransGen (Stage host x) (r, s) (r.instantiate host mapping allocator s).2 := by
  unfold instantiate
  split
  · next habsent =>
      cases allocator with
      | none => exact .single (.lack s habsent)
      | some a =>
          have hplace := hmapping rfl
          dsimp only
          split
          next s1 hgiven => exact .single (.fail habsent hplace hgiven (by simp))
          next s1 hgiven => exact .single (.fail habsent hplace hgiven (by simp))
          next p s1 hgiven => exact .head (.build habsent hplace hgiven) (switchOn_stages host _ s1)
  · exact switchOn_stages host r s

end Stages

/-- What a record is for is the same after any stages. -/
theorem endures_of_stages
    {host : Host σ} {x : Scope} {a b : Record × σ}
    (h : ReflTransGen (Stage host x) a b) :
    a.1.Endures b.1 := by
  induction h with
  | refl => exact Endures.refl _
  | tail _ hlast ih => exact ih.trans hlast.endures

end Record

namespace Course

variable {host : Host σ} {x : Scope} {module : Nat}

theorem of_prepares
    (g : Registry) {s s' : σ}
    (h : ReflTransGen host.Prepares s s') :
    Course host x (g, s) (g, s') :=
  h.lift (g, ·) fun _ _ hcall => .prepare g hcall

/-- What happens to a record happens in its place. -/
theorem of_record
    {r : Record} {s : σ} {b : Record × σ}
    (h : ReflTransGen (Record.Stage host x) (r, s) b)
    (hmodule : r.module = x.module)
    (g : Registry) (pre post : List Record) :
    Course host x ({ g with records := pre ++ r :: post }, s)
      ({ g with records := pre ++ b.1 :: post }, b.2) := by
  induction h with
  | refl => exact .refl
  | tail hearlier hlast ih =>
      have hsame := (Record.endures_of_stages hearlier).module
      exact ih.tail (.record (g := { g with records := _ }) rfl (hsame.trans hmodule) hlast)

/-! ### Walks over all records -/

/-- First one record, then the others. -/
theorem cons
    {g : Registry} {pre rest rest' : List Record} {r r' : Record} {s s1 s' : σ}
    (hfirst : Course host x ({ g with records := pre ++ r :: rest }, s)
      ({ g with records := pre ++ r' :: rest }, s1))
    (hrest : Course host x ({ g with records := (pre ++ [r']) ++ rest }, s1)
      ({ g with records := (pre ++ [r']) ++ rest' }, s')) :
    Course host x ({ g with records := pre ++ r :: rest }, s)
      ({ g with records := pre ++ r' :: rest' }, s') := by
  rw [List.append_assoc, List.append_assoc] at hrest
  exact hfirst.trans hrest

/-- Bringing the wanted patches of a module into memory. -/
theorem restoreRecords
    {mapping : Mapping} {allocator : Option Nat}
    (hmodule : x.module = module)
    (hmapping : allocator.isSome → x.mapping = some mapping)
    (g : Registry) (pre records : List Record) (s : σ) :
    Course host x ({ g with records := pre ++ records }, s)
      ({ g with
          records := pre ++ (Registry.restoreRecords host module mapping allocator records s).2.1 },
        (Registry.restoreRecords host module mapping allocator records s).2.2) := by
  induction records generalizing pre s with
  | nil => exact .refl
  | cons r rest ih =>
      unfold Registry.restoreRecords
      split
      next hwanted =>
        have hfirst := of_record (Record.instantiate_stages host hmapping r s)
          (hwanted.1.trans hmodule.symm) g pre rest
        split
        next r' s' hgiven =>
          rw [hgiven] at hfirst
          exact hfirst
        next outcome r' s' hgiven =>
          rw [hgiven] at hfirst
          exact hfirst.cons (ih _ _)
      next => exact cons .refl (ih _ _)

/-- Giving up the patches of a module. -/
theorem detachRecords
    (hmodule : x.module = module)
    (hdetaches : x.detaches = true)
    (g : Registry) (pre records : List Record) (s : σ) :
    Course host x ({ g with records := pre ++ records }, s)
      ({ g with records := pre ++ (Registry.detachRecords host module records s).1 },
        (Registry.detachRecords host module records s).2) := by
  induction records generalizing pre s with
  | nil => exact .refl
  | cons r rest ih =>
      unfold Registry.detachRecords
      by_cases hmine : r.module = module
      · rw [if_pos hmine]
        cases hbacking : r.backing with
        | instantiated p =>
            have hdetach : Record.Stage host x (r, s) ({ r with backing := .absent }, host.detach p s) :=
              .detach s hdetaches hbacking
            have hfirst := of_record (.single hdetach) (hmine.trans hmodule.symm) g pre rest
            simp only [Record.takePatch, hbacking]
            exact hfirst.cons (ih _ _)
        | _ =>
            simp only [Record.takePatch, hbacking]
            exact cons .refl (ih _ _)
      · rw [if_neg hmine]
        exact cons .refl (ih _ _)

/-- Ending the patches of a module, or giving them up if its code is not writable. -/
theorem closeRecords
    (locked : Bool)
    (hmodule : x.module = module)
    (hremoves : locked = true → x.removes = true)
    (hdetaches : locked = false → x.detaches = true)
    (g : Registry) (pre records : List Record) (s : σ) :
    Course host x ({ g with records := pre ++ records }, s)
      ({ g with records := pre ++ (Registry.closeRecords host locked module records s).1 },
        (Registry.closeRecords host locked module records s).2) := by
  induction records generalizing pre s with
  | nil => exact .refl
  | cons r rest ih =>
      unfold Registry.closeRecords
      by_cases hmine : r.module = module
      · rw [if_pos hmine]
        cases hbacking : r.backing with
        | instantiated p =>
            simp only [Record.takePatch, hbacking]
            cases locked with
            | true =>
                have hremove : Record.Stage host x (r, s)
                    ({ r with backing := .absent }, host.remove p (host.revert p s)) :=
                  .remove s (hremoves rfl) hbacking
                have hfirst := of_record (.single hremove) (hmine.trans hmodule.symm) g pre rest
                exact hfirst.cons (ih _ _)
            | false =>
                have hdetach : Record.Stage host x (r, s)
                    ({ r with backing := .absent }, host.detach p s) :=
                  .detach s (hdetaches rfl) hbacking
                have hfirst := of_record (.single hdetach) (hmine.trans hmodule.symm) g pre rest
                exact hfirst.cons (ih _ _)
        | _ =>
            simp only [Record.takePatch, hbacking]
            exact cons .refl (ih _ _)
      · rw [if_neg hmine]
        exact cons .refl (ih _ _)

/-! ### Requests -/

/-- What happens to the record of a function is put in its place. -/
theorem put
    {g : Registry} {r : Record} {s : σ} {b : Record × σ} {offset : Nat}
    (h : ReflTransGen (Record.Stage host x) (r, s) b)
    (hmodule : x.module = module)
    (horder : InOrder g.records)
    (hfind : g.find? module offset = some r) :
    Course host x (g, s) (g.put b.1, b.2) := by
  have hkey := List.find?_some hfind
  simp only [Bool.and_eq_true, decide_eq_true_eq] at hkey
  have hendures := Record.endures_of_stages h
  obtain ⟨pre, old, post, hsplit, hinsert, hold, _⟩ := Registry.insertRecord_split b.1 horder
  have hsame : old = some r := by
    rw [hold, hendures.module, hendures.offset, hkey.1, hkey.2]
    exact hfind
  rw [hsame, Option.toList_some, List.append_assoc, List.singleton_append] at hsplit
  have hcourse := of_record h (hkey.1.trans hmodule.symm) g pre post
  rw [← hsplit] at hcourse
  have hput : g.put b.1 = { g with records := pre ++ b.1 :: post } :=
    congrArg (fun records => { g with records }) hinsert
  rw [hput]
  exact hcourse

section Requests

variable (host : Host σ)

/-- There is a record of a function then. -/
theorem record
    {g : Registry}
    (hmodule : x.module = module)
    (horder : InOrder g.records)
    (t : Target) (s : σ) :
    ∃ r g', g.record module t = (r, g') ∧ g'.find? module t.offset = some r ∧
      Course host x (g, s) (g', s) := by
  cases hfind : g.find? module t.offset with
  | some r => exact ⟨r, g, by simp only [Registry.record, hfind], hfind, .refl⟩
  | none =>
      let r : Record := ⟨module, t.offset, g.lastId + 1, t.size, .dormant, .absent⟩
      let g1 : Registry := { g with lastId := g.lastId + 1 }
      obtain ⟨pre, old, post, hsplit, hinsert, hold, hordered⟩ := Registry.insertRecord_split r horder
      have hnone : old = none := hold.trans hfind
      rw [hnone, Option.toList_none, List.append_nil] at hsplit
      have hput : g1.put r = { g with lastId := g.lastId + 1, records := pre ++ r :: post } :=
        congrArg (fun records => { g1 with records }) hinsert
      refine ⟨r, g1.put r, by simp only [Registry.record, hfind, r, g1], Registry.find?_put g1 r, ?_⟩
      rw [hput]
      exact .single (.create s hsplit hmodule.symm rfl rfl hordered)

/-- Requesting a patch for one function. -/
theorem applyTarget
    {g : Registry} {l : Option Lock}
    (hmodule : x.module = module)
    (hmapping : ∀ k, l = some k → k.allocator.isSome → x.mapping = some k.mapping)
    (horder : InOrder g.records)
    (t : Target) (s : σ) :
    Course host x (g, s) (Registry.applyTarget host l module t g s).2 := by
  obtain ⟨r, g1, hgiven, hfind, hrecord⟩ := record host hmodule horder t s
  have horder1 := hrecord.inOrder horder
  have hask : Record.Stage host x (r, s) ({ r with desired := .active }, s) := .ask r s .active
  unfold Registry.applyTarget
  rw [hgiven]
  dsimp only
  split
  · exact hrecord
  · split
    · exact hrecord
    · cases l with
      | none => exact hrecord.trans (put (.single hask) hmodule horder1 hfind)
      | some l =>
          have hbuild := Record.instantiate_stages host (hmapping l rfl)
            { r with desired := .active } s
          exact hrecord.trans (put (.head hask hbuild) hmodule horder1 hfind)

/-- Requesting patches one after the other. -/
theorem applyTargets
    {g : Registry} {l : Option Lock}
    (hmodule : x.module = module)
    (hmapping : ∀ k, l = some k → k.allocator.isSome → x.mapping = some k.mapping)
    (horder : InOrder g.records)
    (targets : List Target) (s : σ) :
    Course host x (g, s) (Registry.applyTargets host l module targets g s).2 := by
  induction targets generalizing g s with
  | nil => exact .refl
  | cons t rest ih =>
      have hfirst := applyTarget host hmodule hmapping horder t s
      have horder1 := hfirst.inOrder horder
      unfold Registry.applyTargets
      split
      next g1 s1 hgiven =>
        rw [hgiven] at hfirst
        exact hfirst
      next change g1 s1 hgiven =>
        rw [hgiven] at hfirst horder1
        exact hfirst.trans (ih horder1 s1)

/-- Withdrawing the request for one function. -/
theorem revertOffset
    {g : Registry}
    (hmodule : x.module = module)
    (hremoves : x.removes = true)
    (horder : InOrder g.records)
    (locked : Bool) (offset : Nat) (s : σ) :
    Course host x (g, s) (Registry.revertOffset host locked module offset g s).2 := by
  unfold Registry.revertOffset
  split
  · exact .refl
  · next r hfind =>
      have hask : Record.Stage host x (r, s) ({ r with desired := .dormant }, s) := .ask r s .dormant
      have hturns := put (.single hask) hmodule horder hfind
      split
      · exact .refl
      · split
        · exact .refl
        · cases hbacking : r.backing with
          | instantiated p =>
              simp only [Record.takePatch]
              cases locked with
              | true =>
                  have hremove : Record.Stage host x ({ r with desired := .dormant }, s)
                      ({ r with desired := .dormant, backing := .absent },
                        host.remove p (host.revert p s)) :=
                    .remove s hremoves hbacking
                  exact put (.head hask (.single hremove)) hmodule horder hfind
              | false =>
                  rw [← hbacking]
                  exact hturns
          | _ =>
              simp only [Record.takePatch]
              rw [← hbacking]
              exact hturns

/-- Withdrawing requests one after the other. -/
theorem revertOffsets
    {g : Registry}
    (hmodule : x.module = module)
    (hremoves : x.removes = true)
    (horder : InOrder g.records)
    (locked : Bool) (offsets : List Nat) (s : σ) :
    Course host x (g, s) (Registry.revertOffsets host locked module offsets g s).2 := by
  induction offsets generalizing g s with
  | nil => exact .refl
  | cons offset rest ih =>
      have hfirst := revertOffset host hmodule hremoves horder locked offset s
      exact hfirst.trans (ih (hfirst.inOrder horder) _)

/-- A batch of requests. -/
theorem apply
    {g : Registry} {pin : Nat → Option Mapping} {s : σ}
    (hmodule : x.module = module)
    (hmapping : ∀ k, (g.lock host pin module s).1 = some k → k.allocator.isSome →
      x.mapping = some k.mapping)
    (horder : InOrder g.records)
    (targets : List Target) :
    Course host x (g, s) (g.apply host pin module targets s).2 := by
  have hlock := Registry.lock_prepares host pin g module s
  unfold Registry.apply
  generalize g.lock host pin module s = given at hlock hmapping ⊢
  obtain ⟨l, s1⟩ := given
  have hrequests := applyTargets host hmodule hmapping horder targets s1
  exact ((of_prepares g hlock).trans hrequests).trans
    (of_prepares _ (Registry.unlock_prepares host l _))

/-- A batch of withdrawals. -/
theorem revert
    {g : Registry}
    (hmodule : x.module = module)
    (hremoves : x.removes = true)
    (horder : InOrder g.records)
    (pin : Nat → Option Mapping) (offsets : List Nat) (s : σ) :
    Course host x (g, s) (g.revert host pin module offsets s).2 := by
  have hlock := Registry.lock_prepares host pin g module s
  unfold Registry.revert
  generalize g.lock host pin module s = given at hlock ⊢
  obtain ⟨l, s1⟩ := given
  have hwithdrawals := revertOffsets host hmodule hremoves horder l.isSome offsets s1
  exact ((of_prepares g hlock).trans hwithdrawals).trans
    (of_prepares _ (Registry.unlock_prepares host l _))

end Requests

/-! ### Events and the end -/

section Events

variable (host : Host σ)

/-- A module is mapped. -/
theorem mapped
    {mapping : Mapping} {s : σ}
    (hmodule : x.module = module)
    (hmapping : (Registry.allocatorFor host mapping s).1.isSome → x.mapping = some mapping)
    (hlearns : x.learns = true)
    (id : Nat) (g : Registry) :
    Course host x (g, s) (g.mapped host module id mapping s).2 := by
  have hallocator := Registry.allocatorFor_prepares host mapping s
  unfold Registry.mapped
  generalize Registry.allocatorFor host mapping s = given at hallocator hmapping ⊢
  obtain ⟨allocator, s1⟩ := given
  have hlearn : Course host x (g, s1) (g.learn host module id allocator s1) :=
    (of_prepares g (Registry.dropKnown_prepares host _ s1)).tail (.tables g _ _ _ hlearns)
  have hbegun := (of_prepares g hallocator).trans hlearn
  dsimp only
  generalize g.learn host module id allocator s1 = learnt at hbegun ⊢
  obtain ⟨g2, s2⟩ := learnt
  split
  · have hrelax := host.relax_prepares mapping s2
    split
    next s3 hgiven =>
      rw [hgiven] at hrelax
      exact hbegun.trans (of_prepares g2 hrelax)
    next guards s3 hgiven =>
      rw [hgiven] at hrelax
      have hrestore : Course host x (g2, s3) _ := restoreRecords hmodule hmapping g2 [] g2.records s3
      exact ((hbegun.trans (of_prepares g2 hrelax)).trans hrestore).trans
        (of_prepares _ (host.releaseAll_prepares guards _))
  · exact hbegun

/-- A known mapping goes away. -/
theorem unmapped
    {g : Registry} {id : Nat}
    (hmodule : x.module = module)
    (hdetaches : x.detaches = true)
    (hlearns : x.learns = true)
    (hknown : g.modules.lookup id = some module)
    (s : σ) :
    Course host x (g, s) (g.unmapped host id s) := by
  have hdetach : Course host x (g, s) _ := detachRecords hmodule hdetaches g [] g.records s
  unfold Registry.unmapped
  rw [hknown]
  exact (hdetach.tail (.tables _ _ _ _ hlearns)).trans
    (of_prepares _ (Registry.dropKnown_prepares host _ _))

/-- The patches of a module are ended, or given up if its code cannot be made writable. -/
theorem closeModule
    {g : Registry} {pin : Nat → Option Mapping} {s : σ}
    (hmodule : x.module = module)
    (hremoves : (g.lock host pin module s).1.isSome = true → x.removes = true)
    (hdetaches : (g.lock host pin module s).1.isSome = false → x.detaches = true) :
    Course host x (g, s) (g.closeModule host pin module s) := by
  have hlock := Registry.lock_prepares host pin g module s
  unfold Registry.closeModule
  generalize g.lock host pin module s = given at hlock hremoves hdetaches ⊢
  obtain ⟨l, s1⟩ := given
  have hclose : Course host x (g, s1) _ :=
    closeRecords l.isSome hmodule hremoves hdetaches g [] g.records s1
  exact ((of_prepares g hlock).trans hclose).trans
    (of_prepares _ (Registry.unlock_prepares host l _))

end Events

end Course

end CallProfiler.Image
