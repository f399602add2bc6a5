import CallProfiler.Image.Registry
import Mathlib.Logic.Function.Basic

/-!
# What a registry has to remember

A registry of patches keeps records, known mappings, allocators and patches.  What it answers depends
on much less: for each function the last request, and for each module its current mapping.  `Wishes`
is the machine that remembers only this.

**Main definitions.**
* `Wishes.status`: the state that a query has to report.
* `Deed`, `Wishes.perform`: what can be done, and what is answered.
-/

namespace CallProfiler.Image

/-- A module comes or goes. -/
inductive Movement where
  | load (module : Nat) (mapping : Mapping)
  | unload (mapping : Nat)

/-- A module comes or goes, or patches are requested or withdrawn. -/
inductive Deed where
  | move (movement : Movement)
  | apply (module : Nat) (targets : List Target)
  | revert (module : Nat) (offsets : List Nat)

/-- Every mapping that comes has code. -/
def Movement.HasCode : Movement → Prop
  | .load _ mapping => mapping.executableRegions ≠ []
  | .unload _ => True

def Deed.HasCode : Deed → Prop
  | .move movement => movement.HasCode
  | _ => True

/-- The answer for one function, without the number and the size that its record was given. -/
structure Reply where
  offset : Nat
  /-- There is a record. -/
  known : Bool
  outcome : Outcome
  deriving DecidableEq

/-- What is seen of an answer. -/
def PatchChange.reply (c : PatchChange) : Reply := ⟨c.offset, c.id ≠ 0, c.outcome⟩

/-- What is answered to a deed; nothing if it was abandoned. -/
inductive Answer where
  | loaded (mapping : Option Nat)
  | unloaded (wasMapped : Option Bool)
  | replied (replies : Option (List Reply))
  deriving DecidableEq

/-- The last request for each function, by module and offset, and the current mapping of each module
with its number.  Numbers are given out in the order of the loads. -/
structure Wishes where
  loads : Nat := 0
  current : Nat → Option (Nat × Mapping) := fun _ => none
  last : Nat → Nat → Option Desired := fun _ _ => none

namespace Wishes

/-- The state of a function, if anything was ever requested for it. -/
def status (w : Wishes) (module offset : Nat) : Option Status :=
  (w.last module offset).map fun
    | .dormant => .dormant
    | .active => if (w.current module).isSome then .active else .pending

/-- Where the function at an offset is now, if its module is mapped. -/
def address? (w : Wishes) (module offset : Nat) : Option Nat :=
  (w.current module).map fun c => c.2.base + offset

/-- Remembers a request. -/
def want (w : Wishes) (module offset : Nat) (desired : Desired) : Wishes :=
  { w with last := Function.update w.last module (Function.update (w.last module) offset (some desired)) }

/-- Requests the patch of one function. -/
def applyOne (w : Wishes) (module offset : Nat) : Reply × Wishes :=
  let outcome :=
    if (w.current module).isNone then .activationError
    else if w.status module offset = some .active then .unchanged
    else .ok
  (⟨offset, true, outcome⟩, w.want module offset .active)

/-- Withdraws the request for one function; there has to be one to withdraw. -/
def revertOne (w : Wishes) (module offset : Nat) : Reply × Wishes :=
  match w.last module offset with
  | none => (⟨offset, false, .unchanged⟩, w)
  | some .dormant => (⟨offset, true, .unchanged⟩, w)
  | some .active => (⟨offset, true, .ok⟩, w.want module offset .dormant)

def applyAll (module : Nat) : List Target → Wishes → List Reply × Wishes
  | [], w => ([], w)
  | t :: rest, w =>
    let (reply, w) := w.applyOne module t.offset
    let (more, w) := applyAll module rest w
    (reply :: more, w)

def revertAll (module : Nat) : List Nat → Wishes → List Reply × Wishes
  | [], w => ([], w)
  | offset :: rest, w =>
    let (reply, w) := w.revertOne module offset
    let (more, w) := revertAll module rest w
    (reply :: more, w)

/-- A mapping takes the place of the one that its module had, if it had one. -/
def place (w : Wishes) (module id : Nat) (mapping : Mapping) : Wishes :=
  { w with current := Function.update w.current module (some (id, mapping)) }

/-- A module gets a new mapping. -/
def load (w : Wishes) (module : Nat) (mapping : Mapping) : Wishes :=
  { w.place module (w.loads + 1) mapping with loads := w.loads + 1 }

/-- The module of a mapping, if it is the current one, is no longer mapped. -/
def unload (w : Wishes) (id : Nat) : Wishes :=
  { w with current := fun module => (w.current module).filter (·.1 ≠ id) }

/-- Some module has the mapping with a number. -/
def IsMapped (w : Wishes) (id : Nat) : Prop := ∃ module mapping, w.current module = some (id, mapping)

open Classical in
/-- What is answered to a module's coming or going, and what is remembered then. -/
noncomputable def move (w : Wishes) : Movement → Answer × Wishes
  | .load module mapping => (.loaded (some (w.loads + 1)), w.load module mapping)
  | .unload id => (.unloaded (some (decide (w.IsMapped id))), w.unload id)

/-- What is answered to a deed, and what is remembered then. -/
noncomputable def perform (w : Wishes) : Deed → Answer × Wishes
  | .move movement => w.move movement
  | .apply module targets =>
    let (replies, w) := applyAll module targets w
    (.replied (some replies), w)
  | .revert module offsets =>
    let (replies, w) := revertAll module offsets w
    (.replied (some replies), w)

/-- Deeds one after the other. -/
noncomputable def performAll : List Deed → Wishes → List Answer × Wishes
  | [], w => ([], w)
  | d :: rest, w =>
    let (answer, w) := w.perform d
    let (more, w) := performAll rest w
    (answer :: more, w)

/-- What is remembered after modules came and went. -/
noncomputable def moveAll (movements : List Movement) (w : Wishes) : Wishes :=
  movements.foldl (fun w movement => (w.move movement).2) w

/-- Modules come and go, then come deeds. -/
noncomputable def run (earlier : List Movement) (deeds : List Deed) : List Answer × Wishes :=
  performAll deeds (moveAll earlier {})

@[simp] theorem want_current
    (w : Wishes) (module offset : Nat) (desired : Desired) :
    (w.want module offset desired).current = w.current :=
  rfl

theorem want_last
    (w : Wishes) (module offset module' offset' : Nat) (desired : Desired) :
    (w.want module offset desired).last module' offset' =
      if module' = module ∧ offset' = offset then some desired else w.last module' offset' := by
  by_cases hmodule : module' = module
  · subst hmodule
    by_cases hoffset : offset' = offset
    · simp [want, hoffset]
    · simp [want, hoffset]
  · simp [want, hmodule]

theorem want_want
    (w : Wishes) (module offset : Nat) (desired desired' : Desired) :
    (w.want module offset desired).want module offset desired' = w.want module offset desired' := by
  simp [want]

/-- Remembering the last request again changes nothing. -/
theorem want_of_last
    {w : Wishes} {module offset : Nat} {desired : Desired}
    (h : w.last module offset = some desired) :
    w.want module offset desired = w := by
  simp only [want, ← h, Function.update_eq_self]

theorem place_current_self
    (w : Wishes) (module id : Nat) (mapping : Mapping) :
    (w.place module id mapping).current module = some (id, mapping) :=
  Function.update_self _ _ _

theorem place_current_of_ne
    (w : Wishes) {module m : Nat} (id : Nat) (mapping : Mapping)
    (hm : m ≠ module) :
    (w.place module id mapping).current m = w.current m :=
  Function.update_of_ne hm _ _

theorem unload_current
    {w : Wishes} {id module i : Nat} {mapping : Mapping} :
    (w.unload id).current module = some (i, mapping) ↔
      w.current module = some (i, mapping) ∧ i ≠ id := by
  simp [unload]

theorem unload_current_of_ne
    {w : Wishes} {id module : Nat}
    (h : ∀ mapping, w.current module ≠ some (id, mapping)) :
    (w.unload id).current module = w.current module := by
  cases hcurrent : w.current module with
  | none =>
      simp [unload, hcurrent]
  | some c =>
      have hne : c.1 ≠ id := by
        rintro rfl
        exact h c.2 hcurrent
      simp [unload, hcurrent, hne]

theorem revertOne_current
    (w : Wishes) (module offset : Nat) :
    (w.revertOne module offset).2.current = w.current := by
  unfold revertOne
  split <;> rfl

theorem revertOne_loads
    (w : Wishes) (module offset : Nat) :
    (w.revertOne module offset).2.loads = w.loads := by
  unfold revertOne
  split <;> rfl

/-- Requests move no module. -/
theorem applyAll_places
    (module : Nat) (targets : List Target) (w : Wishes) :
    (applyAll module targets w).2.loads = w.loads ∧
      (applyAll module targets w).2.current = w.current := by
  induction targets generalizing w with
  | nil =>
      exact ⟨rfl, rfl⟩
  | cons t rest ih =>
      exact ih (w.applyOne module t.offset).2

theorem revertAll_places
    (module : Nat) (offsets : List Nat) (w : Wishes) :
    (revertAll module offsets w).2.loads = w.loads ∧
      (revertAll module offsets w).2.current = w.current := by
  induction offsets generalizing w with
  | nil =>
      exact ⟨rfl, rfl⟩
  | cons offset rest ih =>
      obtain ⟨hloads, hcurrent⟩ := ih (w.revertOne module offset).2
      rw [revertOne_loads] at hloads
      rw [revertOne_current] at hcurrent
      exact ⟨hloads, hcurrent⟩

theorem status_eq_active
    {w : Wishes} {module offset : Nat} :
    w.status module offset = some .active ↔
      w.last module offset = some .active ∧ (w.current module).isSome := by
  unfold status
  cases w.last module offset with
  | none =>
      simp
  | some desired =>
      cases desired with
      | dormant =>
          simp
      | active =>
          cases w.current module <;> simp

/-- A function that nothing was requested for is as good as dormant. -/
theorem applyOne_want
    (w : Wishes) (module offset : Nat) :
    (w.want module offset ((w.last module offset).getD .dormant)).applyOne module offset =
      w.applyOne module offset := by
  cases hlast : w.last module offset with
  | some desired =>
      rw [Option.getD_some, want_of_last hlast]
  | none =>
      rw [Option.getD_none]
      have hstatus : (w.want module offset .dormant).status module offset ≠ some .active := by
        intro hactive
        have hwanted := (status_eq_active.1 hactive).1
        simp [want_last] at hwanted
      have hstatus' : w.status module offset ≠ some .active := by
        intro hactive
        have hwanted := (status_eq_active.1 hactive).1
        rw [hlast] at hwanted
        cases hwanted
      simp only [applyOne, want_current, want_want, if_neg hstatus, if_neg hstatus']

end Wishes

end CallProfiler.Image
