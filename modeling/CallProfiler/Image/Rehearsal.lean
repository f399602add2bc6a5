import CallProfiler.Image.Fleet

/-!
# A host for rehearsals

This host touches no memory: it writes down what it is asked and goes along with it, unless a fault
was arranged.  Several registries can share it; each has a log of its own.
-/

namespace CallProfiler.Image

open Text (hex)

/-- A fault arranged for the function at an address. -/
inductive ArrangedFault where
  /-- Building the patch is refused. -/
  | refuse
  /-- Building the patch is abandoned. -/
  | abandon
  /-- Switching on changes nothing. -/
  | stubborn
  | activateFails
  | activateAbandoned
  /-- Switching off fails and the patch stays active. -/
  | revertFails
  /-- The patch built has no way to be given up other than being dropped. -/
  | plain
  deriving DecidableEq

/-- A patch that exists only on paper. -/
structure PaperPatch where
  address : Nat
  active : Bool
  plain : Bool
  deriving DecidableEq

/-- What has been arranged and what has happened.  A log line is kept with the name of its log. -/
structure Rehearsal where
  faults : List (Nat × ArrangedFault) := []
  /-- Starts of ranges that are refused; one stands for allocators. -/
  refusals : List Nat := []
  patches : List (Nat × PaperPatch) := []
  guards : List (Nat × Memory.Region) := []
  next : Nat := 0
  log : List (String × String) := []

namespace Rehearsal

/-- Writes a line into a log. -/
def note (log line : String) (r : Rehearsal) : Rehearsal := { r with log := r.log ++ [(log, line)] }

/-- Arranges a fault for an address, or none. -/
def arrange (address : Nat) (fault : Option ArrangedFault) (r : Rehearsal) : Rehearsal :=
  let others := r.faults.filter (·.1 ≠ address)
  { r with faults := others ++ (fault.map (address, ·)).toList }

/-- The lines of all logs since the last time, and the rehearsal without them. -/
def takeLog (r : Rehearsal) : List (String × String) × Rehearsal := (r.log, { r with log := [] })

def setActive (patch : Nat) (active : Bool) (r : Rehearsal) : Rehearsal :=
  { r with patches := r.patches.map fun (k, p) => (k, if k = patch then { p with active } else p) }

/-- Writes what happens to a patch. -/
def notePatch (log verb : String) (patch : Nat) (r : Rehearsal) : Rehearsal :=
  match r.patches.lookup patch with
  | none => r
  | some p => r.note log s!"{verb} {hex p.address}"

/-- The fault arranged for the function of a patch. -/
def faultOf (patch : Nat) (r : Rehearsal) : Option ArrangedFault :=
  (r.patches.lookup patch).bind fun p => r.faults.lookup p.address

def forget (patch : Nat) (r : Rehearsal) : Rehearsal :=
  { r with patches := r.patches.filter (·.1 ≠ patch) }

def createAllocator (log : String) (span : Memory.Range) (r : Rehearsal) : Option Nat × Rehearsal :=
  let r := r.note log s!"allocator {hex span.start}..{hex span.finish} 32"
  if 1 ∈ r.refusals then (none, r) else (some r.next, { r with next := r.next + 1 })

def protect (log : String) (region : Memory.Region) (r : Rehearsal) : Option Nat × Rehearsal :=
  let range := region.range
  if range.start ∈ r.refusals then (none, r.note log s!"refuse {hex range.start}")
  else
    (some r.next,
      { r.note log s!"protect {hex range.start}..{hex range.finish} rwx" with
        next := r.next + 1
        guards := r.guards ++ [(r.next, region)] })

def release (log : String) (guard : Nat) (r : Rehearsal) : Rehearsal :=
  match r.guards.lookup guard with
  | none => r
  | some region =>
    { r.note log s!"restore {hex region.range.start} {region.protection.text}" with
      guards := r.guards.filter (·.1 ≠ guard) }

def build (log : String) (site : Site) (r : Rehearsal) : Built × Rehearsal :=
  let r := r.note log s!"create {hex site.address} size {site.size} id {site.id}"
  match r.faults.lookup site.address with
  | some .refuse => (.refused, r)
  | some .abandon => (.abandoned, r)
  | fault =>
    (.built r.next,
      { r with
        next := r.next + 1
        patches := r.patches ++ [(r.next, ⟨site.address, false, fault = some .plain⟩)] })

def activate (log : String) (patch : Nat) (r : Rehearsal) : Switched × Rehearsal :=
  let r := r.notePatch log "activate" patch
  match r.faultOf patch with
  | some .stubborn => (.done, r)
  | some .activateFails => (.failed, r)
  | some .activateAbandoned => (.abandoned, r)
  | _ => (.done, r.setActive patch true)

def revert (log : String) (patch : Nat) (r : Rehearsal) : Rehearsal :=
  let r := r.notePatch log "revert" patch
  if r.faultOf patch = some .revertFails then r else r.setActive patch false

def remove (log : String) (patch : Nat) (r : Rehearsal) : Rehearsal :=
  (r.notePatch log "drop" patch).forget patch

def detach (log : String) (patch : Nat) (r : Rehearsal) : Rehearsal :=
  let plain := (r.patches.lookup patch).any (·.plain)
  (if plain then r else r.notePatch log "detach" patch).remove log patch

/-- The host that writes into one log. -/
def host (log : String) : Host Rehearsal where
  createAllocator := createAllocator log
  dropAllocator := fun _ r => r
  protect := protect log
  release := release log
  build := fun site _ => build log site
  activate := activate log
  revert := revert log
  isActive := fun patch r => (r.patches.lookup patch).any (·.active)
  remove := remove log
  detach := detach log

/-- The hosts of a rehearsal, each with the log of its name; observers note events in theirs. -/
def crew : Crew Rehearsal := ⟨host, fun name e r => r.note name e.line⟩

end Rehearsal

end CallProfiler.Image
