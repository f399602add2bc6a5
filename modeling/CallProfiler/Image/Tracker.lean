import CallProfiler.Image.Mapping
import CallProfiler.Text.Shown

/-!
# Modules that come and go

The tracker knows which modules are mapped and who listens.  Loading a module that is mapped already
first unloads its old mapping; a new listener is first told of the mappings there are.
Every operation gives the events it reports, in order; each listener is told all of them.
-/

namespace CallProfiler.Image

/-- What a listener is told. -/
inductive Event where
  | mapped (module mapping : Nat) (regions : Mapping)
  | unmapped (mapping : Nat)
  deriving DecidableEq

/-- A mapping with its number and its module's. -/
structure Tracked where
  id : Nat
  module : Nat
  mapping : Mapping
  deriving DecidableEq

/-- The mapped modules, oldest mapping first, and the listeners. -/
structure Tracker where
  lastMapping : Nat := 0
  lastListener : Nat := 0
  mappings : List Tracked := []
  listeners : List Nat := []
  deriving DecidableEq

namespace Tracker

/-- The mapping with a number, if it is there. -/
def mapping? (t : Tracker) (id : Nat) : Option Mapping :=
  (t.mappings.find? (·.id = id)).map (·.mapping)

/-- The number of the current mapping of a module. -/
def mappingOf (t : Tracker) (module : Nat) : Option Nat :=
  (t.mappings.find? (·.module = module)).map (·.id)

/-- Reports that a module is loaded, after its old mapping is unloaded; gives the new number. -/
def load (t : Tracker) (module : Nat) (mapping : Mapping) : Nat × List Event × Tracker :=
  let old := t.mappings.filter (·.module = module)
  let id := t.lastMapping + 1
  (id, old.map (.unmapped ·.id) ++ [.mapped module id mapping],
    { t with
      lastMapping := id
      mappings := t.mappings.filter (·.module ≠ module) ++ [⟨id, module, mapping⟩] })

/-- Reports that a mapping goes away; says whether there was one. -/
def unload (t : Tracker) (id : Nat) : Bool × List Event × Tracker :=
  if t.mappings.any (·.id = id) then
    (true, [.unmapped id], { t with mappings := t.mappings.filter (·.id ≠ id) })
  else (false, [], t)

/-- A new listener, with the events that it alone is told at once. -/
def subscribe (t : Tracker) : Nat × List Event × Tracker :=
  let id := t.lastListener + 1
  (id, t.mappings.map fun m => .mapped m.module m.id m.mapping,
    { t with lastListener := id, listeners := t.listeners ++ [id] })

/-- The listener is told nothing more. -/
def unsubscribe (t : Tracker) (id : Nat) : Tracker :=
  { t with listeners := t.listeners.filter (· ≠ id) }

end Tracker

/-- A subscription, of which nothing is shown. -/
def shownSubscription : Text.Shown := .record "Subscription" [] false

end CallProfiler.Image
