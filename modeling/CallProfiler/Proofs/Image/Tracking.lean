import CallProfiler.Image.Tracker
import Mathlib.Data.List.Nodup

/-!
# A tracker in order

Numbers of mappings are given out once, and a module has one mapping at a time.  So a number stands for
one mapping of one module for all time, and a module has a current mapping or none.

**Main statements.**
* `Tracker.Orderly`: kept by `Orderly.load` and `Orderly.unload`.
* `Orderly.current_of_mem`: a mapping that is there is the current one of its module.
* `load_of_none`, `Orderly.load_of_some`: what a load reports, and what is there afterwards.
-/

namespace CallProfiler.Image

section Keys

variable {α κ : Type} [DecidableEq κ] (key : α → κ) {l : List α}

/-- Where keys are distinct, the one with the key is found. -/
theorem find?_key
    (hkeys : (l.map key).Nodup)
    {x : α}
    (hx : x ∈ l) :
    l.find? (key · = key x) = some x := by
  cases hfind : l.find? (key · = key x) with
  | none =>
      have hnone := List.find?_eq_none.1 hfind x hx
      simp at hnone
  | some y =>
      have hkey : key y = key x := by
        simpa using List.find?_some hfind
      rw [List.inj_on_of_nodup_map hkeys (List.mem_of_find?_eq_some hfind) hx hkey]

/-- Where keys are distinct, no other one has the key. -/
theorem filter_key
    (hkeys : (l.map key).Nodup)
    (k : κ) :
    l.filter (key · = k) = (l.find? (key · = k)).toList := by
  induction l with
  | nil => rfl
  | cons x rest ih =>
      rw [List.map_cons] at hkeys
      obtain ⟨hfirst, hrest⟩ := List.nodup_cons.1 hkeys
      by_cases hx : key x = k
      · have hnone : rest.filter (key · = k) = [] := by
          refine List.filter_eq_nil_iff.2 fun y hy hsame => hfirst ?_
          rw [hx, ← of_decide_eq_true hsame]
          exact List.mem_map_of_mem hy
        simp [hx, hnone]
      · simpa [hx] using ih hrest

end Keys

namespace Tracker

/-- The current mapping of a module. -/
def current (t : Tracker) (module : Nat) : Option Mapping :=
  (t.mappings.find? (·.module = module)).map (·.mapping)

/-- Each mapping has its own number, among those given out, and its own module. -/
structure Orderly (t : Tracker) : Prop where
  ids : (t.mappings.map (·.id)).Nodup
  modules : (t.mappings.map (·.module)).Nodup
  bounded : ∀ x ∈ t.mappings, x.id ≤ t.lastMapping

theorem mem_load
    {t : Tracker} {module : Nat} {mapping : Mapping} {x : Tracked} :
    x ∈ (t.load module mapping).2.2.mappings ↔
      (x ∈ t.mappings ∧ x.module ≠ module) ∨ x = ⟨t.lastMapping + 1, module, mapping⟩ := by
  simp [load]

theorem mem_unload
    {t : Tracker} {id : Nat} {x : Tracked} :
    x ∈ (t.unload id).2.2.mappings ↔ x ∈ t.mappings ∧ x.id ≠ id := by
  unfold unload
  split
  next => simp
  next hunknown =>
    refine ⟨fun hx => ⟨hx, ?_⟩, And.left⟩
    rintro rfl
    exact hunknown (List.any_eq_true.2 ⟨x, hx, decide_eq_true rfl⟩)

theorem mem_of_mem_unload
    {t : Tracker} {id : Nat} {x : Tracked} :
    x ∈ (t.unload id).2.2.mappings → x ∈ t.mappings :=
  fun hx => (mem_unload.1 hx).1

theorem lastMapping_unload
    (t : Tracker) (id : Nat) :
    (t.unload id).2.2.lastMapping = t.lastMapping := by
  unfold unload
  split <;> rfl

namespace Orderly

variable {t : Tracker}

theorem empty : Orderly {} where
  ids := List.nodup_nil
  modules := List.nodup_nil
  bounded := by simp

theorem load
    (h : t.Orderly)
    (module : Nat) (mapping : Mapping) :
    (t.load module mapping).2.2.Orderly := by
  have hkept : (t.mappings.filter (·.module ≠ module)).Sublist t.mappings := List.filter_sublist
  refine ⟨?_, ?_, ?_⟩
  · simp only [Tracker.load, List.map_append, List.map_cons, List.map_nil]
    refine List.nodup_append.2 ⟨(hkept.map _).nodup h.ids, List.nodup_singleton _, ?_⟩
    intro i hi j hj hsame
    obtain ⟨x, hx, rfl⟩ := List.mem_map.1 hi
    rw [List.mem_singleton.1 hj] at hsame
    have hbound := h.bounded x (List.mem_filter.1 hx).1
    omega
  · simp only [Tracker.load, List.map_append, List.map_cons, List.map_nil]
    refine List.nodup_append.2 ⟨(hkept.map _).nodup h.modules, List.nodup_singleton _, ?_⟩
    intro i hi j hj hsame
    obtain ⟨x, hx, rfl⟩ := List.mem_map.1 hi
    rw [List.mem_singleton.1 hj] at hsame
    simp [hsame] at hx
  · intro x hx
    obtain ⟨hold, _⟩ | rfl := mem_load.1 hx
    · exact Nat.le_succ_of_le (h.bounded x hold)
    · exact Nat.le_refl _

/-- Fewer mappings are in order too. -/
theorem sublist
    {kept : List Tracked}
    (h : t.Orderly)
    (hkept : kept.Sublist t.mappings) :
    Orderly { t with mappings := kept } where
  ids := (hkept.map _).nodup h.ids
  modules := (hkept.map _).nodup h.modules
  bounded := fun x hx => h.bounded x (hkept.subset hx)

theorem unload
    (h : t.Orderly)
    (id : Nat) :
    (t.unload id).2.2.Orderly := by
  unfold Tracker.unload
  split
  · exact h.sublist List.filter_sublist
  · exact h

/-- Who listens does not matter. -/
theorem of_mappings
    {t' : Tracker}
    (h : t.Orderly)
    (hmappings : t'.mappings = t.mappings)
    (hlast : t'.lastMapping = t.lastMapping) :
    t'.Orderly where
  ids := hmappings ▸ h.ids
  modules := hmappings ▸ h.modules
  bounded := by
    rw [hmappings, hlast]
    exact h.bounded

/-- A mapping that is there is the current one of its module. -/
theorem current_of_mem
    (h : t.Orderly)
    {x : Tracked}
    (hx : x ∈ t.mappings) :
    t.current x.module = some x.mapping := by
  rw [current, find?_key (·.module) h.modules hx]
  rfl

/-- A module is loaded that is there: its mapping is unloaded first. -/
theorem load_of_some
    (h : t.Orderly)
    {module : Nat} {x : Tracked}
    (hfind : t.mappings.find? (·.module = module) = some x)
    (mapping : Mapping) :
    (t.load module mapping).2.1 = [.unmapped x.id, .mapped module (t.lastMapping + 1) mapping] ∧
      (t.load module mapping).2.2.mappings =
        (t.unload x.id).2.2.mappings ++ [⟨t.lastMapping + 1, module, mapping⟩] := by
  have hx : x ∈ t.mappings := List.mem_of_find?_eq_some hfind
  have hmodule : x.module = module := by
    simpa using List.find?_some hfind
  have hold : t.mappings.filter (·.module = module) = [x] := by
    rw [filter_key Tracked.module h.modules module, hfind]
    rfl
  have hkept : t.mappings.filter (·.module ≠ module) = (t.unload x.id).2.2.mappings := by
    have hknown : t.mappings.any (·.id = x.id) = true :=
      List.any_eq_true.2 ⟨x, hx, decide_eq_true rfl⟩
    rw [Tracker.unload, if_pos hknown]
    refine List.filter_congr fun y hy => ?_
    simp only [ne_eq, decide_not, Bool.not_eq_eq_eq_not, Bool.not_not, decide_eq_decide]
    constructor
    · intro hsame
      rw [List.inj_on_of_nodup_map h.modules hy hx (hsame.trans hmodule.symm)]
    · intro hid
      rw [List.inj_on_of_nodup_map h.ids hy hx hid, hmodule]
  refine ⟨?_, congrArg (· ++ [_]) hkept⟩
  simp only [Tracker.load, hold, List.map_cons, List.map_nil, List.singleton_append]

/-- A mapping that is there can be held. -/
theorem mapping?_of_mem
    (h : t.Orderly)
    {x : Tracked}
    (hx : x ∈ t.mappings) :
    t.mapping? x.id = some x.mapping := by
  rw [mapping?, find?_key (·.id) h.ids hx]
  rfl

end Orderly

/-- A module is loaded that is not there. -/
theorem load_of_none
    {t : Tracker} {module : Nat}
    (hnone : t.mappings.find? (·.module = module) = none)
    (mapping : Mapping) :
    (t.load module mapping).2.1 = [.mapped module (t.lastMapping + 1) mapping] ∧
      (t.load module mapping).2.2.mappings = t.mappings ++ [⟨t.lastMapping + 1, module, mapping⟩] := by
  have hothers := List.find?_eq_none.1 hnone
  have hold : t.mappings.filter (·.module = module) = [] := List.filter_eq_nil_iff.2 hothers
  have hkept : t.mappings.filter (·.module ≠ module) = t.mappings :=
    List.filter_eq_self.2 fun x hx => by simpa using hothers x hx
  refine ⟨?_, congrArg (· ++ [_]) hkept⟩
  simp only [load, hold, List.map_nil, List.nil_append]

/-- The current mapping of a module is there. -/
theorem mem_of_current
    {t : Tracker} {module : Nat} {mapping : Mapping}
    (h : t.current module = some mapping) :
    ∃ id, ⟨id, module, mapping⟩ ∈ t.mappings := by
  obtain ⟨x, hfind, rfl⟩ := Option.map_eq_some_iff.1 h
  have hmodule : x.module = module := by
    simpa using List.find?_some hfind
  exact ⟨x.id, hmodule ▸ List.mem_of_find?_eq_some hfind⟩

/-- What a tracker can hold under a number is there. -/
theorem mem_of_mapping?
    {t : Tracker} {id : Nat} {mapping : Mapping}
    (h : t.mapping? id = some mapping) :
    ∃ module, ⟨id, module, mapping⟩ ∈ t.mappings := by
  obtain ⟨x, hfind, rfl⟩ := Option.map_eq_some_iff.1 h
  have hid : x.id = id := by
    simpa using List.find?_some hfind
  exact ⟨x.module, hid ▸ List.mem_of_find?_eq_some hfind⟩

end Tracker

end CallProfiler.Image
