import CallProfiler.Image.Host

/-!
# Records of requested patches

A record says what was asked for a function and what exists of it in memory; its status follows from
both.
-/

namespace CallProfiler.Image

/-- What was asked for. -/
inductive Desired where
  | dormant
  | active
  deriving DecidableEq

/-- What exists in memory. -/
inductive Backing where
  | absent
  /-- Building the patch failed or never finished. -/
  | broken
  | instantiated (patch : Nat)
  deriving DecidableEq

/-- A function for which a patch was requested. -/
structure Record where
  module : Nat
  /-- The function's offset from the base of its module. -/
  offset : Nat
  id : Nat
  size : Nat
  desired : Desired
  backing : Backing
  deriving DecidableEq

/-- What a query tells about a record. -/
inductive Status where
  | pending
  | active
  | dormant
  | unrecoverableError
  | activationError
  deriving DecidableEq

/-- What a request tells about a record. -/
inductive Outcome where
  | ok
  | unchanged
  | activationError
  | unrecoverableError
  deriving DecidableEq

/-- The state of a record. -/
structure PatchState where
  id : Nat
  offset : Nat
  size : Nat
  status : Status
  deriving DecidableEq

/-- The answer to a request for one function. -/
structure PatchChange where
  id : Nat
  offset : Nat
  size : Nat
  outcome : Outcome
  deriving DecidableEq

namespace Record

/-- The status that follows from what was asked and what exists, where `active` says which patches
divert their functions. -/
def status (active : Nat → Bool) (r : Record) : Status :=
  match r.backing, r.desired with
  | .broken, _ => .unrecoverableError
  | _, .dormant => .dormant
  | .absent, .active => .pending
  | .instantiated p, .active => if active p then .active else .activationError

def state (active : Nat → Bool) (r : Record) : PatchState := ⟨r.id, r.offset, r.size, r.status active⟩

def answer (r : Record) (outcome : Outcome) : PatchChange := ⟨r.id, r.offset, r.size, outcome⟩

/-- The patch of a record, and the record without it. -/
def takePatch (r : Record) : Option Nat × Record :=
  match r.backing with
  | .instantiated p => (some p, { r with backing := .absent })
  | _ => (none, r)

/-- An active patch is wanted and nothing has failed. -/
def isWanted (r : Record) : Bool := r.desired = .active && r.backing ≠ .broken

/-- Records are kept by module, then by offset. -/
def before (r : Record) (module offset : Nat) : Bool :=
  r.module < module || (r.module = module && r.offset < offset)

variable {σ : Type}

/-- Switches the patch of a record on. -/
def switchOn (host : Host σ) (r : Record) (s : σ) : Option Outcome × Record × σ :=
  match r.backing with
  | .instantiated p =>
    match host.activate p s with
    | (.abandoned, s) => (none, r, s)
    | (.failed, s) => (some .activationError, r, s)
    | (.done, s) => (some (if host.isActive p s then .ok else .activationError), r, s)
  | _ => (some .unrecoverableError, r, s)

/-- Builds the patch of a record if there is none and switches it on; no outcome means that the host
abandoned the request.  The record stays broken unless building is completed. -/
def instantiate (host : Host σ) (mapping : Mapping) (allocator : Option Nat) (r : Record) (s : σ) :
    Option Outcome × Record × σ :=
  match r.backing with
  | .absent =>
    let broken := { r with backing := .broken }
    match allocator with
    | none => (some .unrecoverableError, broken, s)
    | some a =>
      match host.build ⟨mapping.addressOf r.offset, r.size, r.id⟩ a s with
      | (.abandoned, s) => (none, broken, s)
      | (.refused, s) => (some .unrecoverableError, broken, s)
      | (.built p, s) => switchOn host { r with backing := .instantiated p } s
  | _ => switchOn host r s

end Record

end CallProfiler.Image
