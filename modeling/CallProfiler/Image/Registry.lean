import CallProfiler.Image.Record
import CallProfiler.Image.Tracker

/-!
# The registry of patches

Requests are made for functions of modules, whether or not the module is mapped; the registry keeps
a record of each and brings the patches in line whenever a module is mapped.  `Registry.apply` and
`Registry.revert` answer for each function of a batch, `Registry.query` tells the states of a module's
records, `Registry.mapped` and `Registry.unmapped` follow the tracker's events, and `Registry.close`
ends all patches.  No answer means that the host abandoned the request; what was done before stays.
-/

namespace CallProfiler.Image

/-- The mapping of a module, as the registry knows it. -/
structure KnownMapping where
  module : Nat
  mapping : Nat
  allocator : Option Nat
  deriving DecidableEq

/-- Records by module and offset, and the mappings known. -/
structure Registry where
  lastId : Nat := 0
  records : List Record := []
  mappings : List KnownMapping := []
  /-- The module of each mapping number. -/
  modules : List (Nat × Nat) := []
  deriving DecidableEq

/-- A module held in place with its code writable. -/
structure Lock where
  guards : List Nat
  mapping : Mapping
  allocator : Option Nat
  deriving DecidableEq

/-- A function to patch. -/
structure Target where
  offset : Nat
  size : Nat
  deriving DecidableEq

namespace Registry

variable {σ : Type}

/-- The record of a function. -/
def find? (g : Registry) (module offset : Nat) : Option Record :=
  g.records.find? fun r => r.module = module && r.offset = offset

/-- Puts a record in its place, over the one of the same function if there is one. -/
def insertRecord (r : Record) : List Record → List Record
  | [] => [r]
  | h :: rest =>
    if h.before r.module r.offset then h :: insertRecord r rest
    else if h.module = r.module ∧ h.offset = r.offset then r :: rest
    else r :: h :: rest

def put (g : Registry) (r : Record) : Registry := { g with records := insertRecord r g.records }

/-- The states of a module's records, by offset. -/
def query (host : Host σ) (g : Registry) (s : σ) (module : Nat) : List PatchState :=
  (g.records.filter (·.module = module)).map (·.state (host.isActive · s))

/-- Holds a module in place and makes its code writable, where `pin` gives the mappings that can be
held. -/
def lock (host : Host σ) (pin : Nat → Option Mapping) (g : Registry) (module : Nat) (s : σ) :
    Option Lock × σ :=
  match g.mappings.find? (·.module = module) with
  | none => (none, s)
  | some known =>
    match pin known.mapping with
    | none => (none, s)
    | some mapping =>
      match host.relax mapping s with
      | (none, s) => (none, s)
      | (some guards, s) => (some ⟨guards, mapping, known.allocator⟩, s)

/-- Makes a module's code as it was. -/
def unlock (host : Host σ) (l : Option Lock) (s : σ) : σ :=
  match l with
  | none => s
  | some l => host.releaseAll l.guards s

/-! ## Requests -/

/-- The record of a function, new and dormant if there was none. -/
def record (g : Registry) (module : Nat) (t : Target) : Record × Registry :=
  match g.find? module t.offset with
  | some r => (r, g)
  | none =>
    let r : Record := ⟨module, t.offset, g.lastId + 1, t.size, .dormant, .absent⟩
    (r, { g with lastId := g.lastId + 1 }.put r)

/-- Requests a patch for one function. -/
def applyTarget (host : Host σ) (l : Option Lock) (module : Nat) (t : Target) (g : Registry) (s : σ) :
    Option PatchChange × Registry × σ :=
  let (r, g) := g.record module t
  if r.backing = .broken then (some (r.answer .unrecoverableError), g, s)
  else if r.status (host.isActive · s) = .active then (some (r.answer .unchanged), g, s)
  else
    let r := { r with desired := .active }
    match l with
    | none => (some (r.answer .activationError), g.put r, s)
    | some l =>
      let (outcome, r, s) := r.instantiate host l.mapping l.allocator s
      (outcome.map r.answer, g.put r, s)

/-- Requests patches one after the other. -/
def applyTargets (host : Host σ) (l : Option Lock) (module : Nat) :
    List Target → Registry → σ → Option (List PatchChange) × Registry × σ
  | [], g, s => (some [], g, s)
  | t :: rest, g, s =>
    match applyTarget host l module t g s with
    | (none, g, s) => (none, g, s)
    | (some change, g, s) =>
      let (more, g, s) := applyTargets host l module rest g s
      (more.map (change :: ·), g, s)

/-- Requests patches for functions of a module. -/
def apply (host : Host σ) (pin : Nat → Option Mapping) (module : Nat) (targets : List Target)
    (g : Registry) (s : σ) : Option (List PatchChange) × Registry × σ :=
  let (l, s) := g.lock host pin module s
  let (changes, g, s) := applyTargets host l module targets g s
  (changes, g, unlock host l s)

/-- Withdraws the request for one function.  Without a lock its patch is left as it is until the
module goes away. -/
def revertOffset (host : Host σ) (locked : Bool) (module offset : Nat) (g : Registry) (s : σ) :
    PatchChange × Registry × σ :=
  match g.find? module offset with
  | none => (⟨0, offset, 0, .unchanged⟩, g, s)
  | some r =>
    if r.backing = .broken then (r.answer .unrecoverableError, g, s)
    else if r.desired = .dormant then (r.answer .unchanged, g, s)
    else
      let r := { r with desired := .dormant }
      match r.takePatch with
      | (some p, bare) =>
        if locked then (bare.answer .ok, g.put bare, host.remove p (host.revert p s))
        else (r.answer .ok, g.put r, s)
      | (none, r) => (r.answer .ok, g.put r, s)

/-- Withdraws requests one after the other. -/
def revertOffsets (host : Host σ) (locked : Bool) (module : Nat) :
    List Nat → Registry → σ → List PatchChange × Registry × σ
  | [], g, s => ([], g, s)
  | offset :: rest, g, s =>
    let (change, g, s) := revertOffset host locked module offset g s
    let (more, g, s) := revertOffsets host locked module rest g s
    (change :: more, g, s)

/-- Withdraws the requests for functions of a module. -/
def revert (host : Host σ) (pin : Nat → Option Mapping) (module : Nat) (offsets : List Nat)
    (g : Registry) (s : σ) : List PatchChange × Registry × σ :=
  let (l, s) := g.lock host pin module s
  let (changes, g, s) := revertOffsets host l.isSome module offsets g s
  (changes, g, unlock host l s)

/-! ## Events -/

/-- Brings the wanted patches of a module into memory, record by record; the answer says whether the
host let it finish. -/
def restoreRecords (host : Host σ) (module : Nat) (mapping : Mapping) (allocator : Option Nat) :
    List Record → σ → Bool × List Record × σ
  | [], s => (true, [], s)
  | r :: rest, s =>
    if r.module = module ∧ r.isWanted then
      match r.instantiate host mapping allocator s with
      | (none, r, s) => (false, r :: rest, s)
      | (some _, r, s) =>
        let (finished, rest, s) := restoreRecords host module mapping allocator rest s
        (finished, r :: rest, s)
    else
      let (finished, rest, s) := restoreRecords host module mapping allocator rest s
      (finished, r :: rest, s)

/-- An allocator near the code of a mapping, if it has code. -/
def allocatorFor (host : Host σ) (mapping : Mapping) (s : σ) : Option Nat × σ :=
  match mapping.executableSpan with
  | none => (none, s)
  | some span => host.createAllocator span s

/-- Drops the allocator of a known mapping. -/
def dropKnown (host : Host σ) (known : Option KnownMapping) (s : σ) : σ :=
  match known.bind (·.allocator) with
  | none => s
  | some a => host.dropAllocator a s

/-- Notes the mapping of a module in place of the one known before. -/
def learn (host : Host σ) (module id : Nat) (allocator : Option Nat) (g : Registry) (s : σ) :
    Registry × σ :=
  ({ g with
      mappings := g.mappings.filter (·.module ≠ module) ++ [⟨module, id, allocator⟩]
      modules := g.modules.filter (·.1 ≠ id) ++ [(id, module)] },
    dropKnown host (g.mappings.find? (·.module = module)) s)

/-- A module is mapped: its wanted patches are brought into memory; the answer says whether the host
let that finish. -/
def mapped (host : Host σ) (module id : Nat) (mapping : Mapping) (g : Registry) (s : σ) :
    Bool × Registry × σ :=
  let (allocator, s) := allocatorFor host mapping s
  let (g, s) := learn host module id allocator g s
  if g.records.any fun r => r.module = module && r.isWanted then
    match host.relax mapping s with
    | (none, s) => (true, g, s)
    | (some guards, s) =>
      let (finished, records, s) := restoreRecords host module mapping allocator g.records s
      (finished, { g with records }, host.releaseAll guards s)
  else (true, g, s)

/-- Gives up the patches of a module, record by record. -/
def detachRecords (host : Host σ) (module : Nat) : List Record → σ → List Record × σ
  | [], s => ([], s)
  | r :: rest, s =>
    if r.module = module then
      let (patch, r) := r.takePatch
      let s := match patch with
        | none => s
        | some p => host.detach p s
      let (rest, s) := detachRecords host module rest s
      (r :: rest, s)
    else
      let (rest, s) := detachRecords host module rest s
      (r :: rest, s)

/-- A mapping goes away: the patches in it are given up. -/
def unmapped (host : Host σ) (id : Nat) (g : Registry) (s : σ) : Registry × σ :=
  match g.modules.lookup id with
  | none => (g, s)
  | some module =>
    let (records, s) := detachRecords host module g.records s
    let isGone (k : KnownMapping) : Bool := k.module = module && k.mapping = id
    ({ g with
        records
        mappings := g.mappings.filter (!isGone ·)
        modules := g.modules.filter (·.1 ≠ id) },
      dropKnown host (g.mappings.find? isGone) s)

/-- Follows one event; the answer says whether the host let that finish. -/
def follow (host : Host σ) (e : Event) (g : Registry) (s : σ) : Bool × Registry × σ :=
  match e with
  | .mapped module id mapping => g.mapped host module id mapping s
  | .unmapped id =>
    let (g, s) := g.unmapped host id s
    (true, g, s)

/-- Follows events until one is abandoned. -/
def followAll (host : Host σ) : List Event → Registry → σ → Bool × Registry × σ
  | [], g, s => (true, g, s)
  | e :: rest, g, s =>
    match g.follow host e s with
    | (true, g, s) => followAll host rest g s
    | (false, g, s) => (false, g, s)

/-! ## The end -/

/-- Ends the patches of a module, record by record: reverted if the code is writable, else given up. -/
def closeRecords (host : Host σ) (locked : Bool) (module : Nat) : List Record → σ → List Record × σ
  | [], s => ([], s)
  | r :: rest, s =>
    if r.module = module then
      let (patch, r) := r.takePatch
      let s := match patch with
        | none => s
        | some p => if locked then host.remove p (host.revert p s) else host.detach p s
      let (rest, s) := closeRecords host locked module rest s
      (r :: rest, s)
    else
      let (rest, s) := closeRecords host locked module rest s
      (r :: rest, s)

/-- Ends the patches of a module. -/
def closeModule (host : Host σ) (pin : Nat → Option Mapping) (module : Nat) (g : Registry) (s : σ) :
    Registry × σ :=
  let (l, s) := g.lock host pin module s
  let (records, s) := closeRecords host l.isSome module g.records s
  ({ g with records }, unlock host l s)

/-- The modules that have patches in memory, in order and each once. -/
def patchedModules (g : Registry) : List Nat :=
  (g.records.filter fun r => match r.backing with
    | .instantiated _ => true
    | _ => false).foldr (fun r ms => if ms.head? = some r.module then ms else r.module :: ms) []

/-- Ends all patches, module by module, then drops the allocators. -/
def close (host : Host σ) (pin : Nat → Option Mapping) (g : Registry) (s : σ) : σ :=
  let (g, s) := g.patchedModules.foldl (fun (g, s) m => closeModule host pin m g s) (g, s)
  g.mappings.foldl (fun s k => dropKnown host (some k) s) s

end Registry

end CallProfiler.Image
