import CallProfiler.Image.Registry
import CallProfiler.Text.Hex

/-!
# Registries and observers around one tracker

Several registries, and observers that only note events, can listen to one tracker.  A registry can
also be led by hand: then it is told of events one by one, and which mappings can be held.
The members share the state of their hosts.  No answer means that a host abandoned the request.
-/

namespace CallProfiler.Image

/-- A registry with a name. -/
structure Member where
  name : String
  /-- Its listener's number at the tracker, unless it is led by hand. -/
  listener : Option Nat
  /-- The mappings that can be held, if it is led by hand. -/
  pinnable : List (Nat × Mapping)
  registry : Registry
  deriving DecidableEq

/-- One that notes events. -/
structure Observer where
  name : String
  listener : Nat
  /-- It still exists, whether or not its subscription does. -/
  alive : Bool
  deriving DecidableEq

/-- A tracker with all who listen to it. -/
structure Fleet where
  tracker : Tracker := {}
  members : List Member := []
  observers : List Observer := []

/-- The hosts of the members, and how an observer notes an event. -/
structure Crew (σ : Type) where
  host : String → Host σ
  observe : String → Event → σ → σ

namespace Fleet

variable {σ : Type}

def member? (f : Fleet) (name : String) : Option Member := f.members.find? (·.name = name)

/-- Puts a member in the place of the one with its name. -/
def setMember (f : Fleet) (m : Member) : Fleet :=
  { f with members := f.members.map fun x => if x.name = m.name then m else x }

/-- The mappings that a member can hold. -/
def pin (f : Fleet) (m : Member) (id : Nat) : Option Mapping :=
  if m.listener.isSome then f.tracker.mapping? id else m.pinnable.lookup id

/-- Tells members of an event, one after the other, until one abandons it. -/
def tellMembers (crew : Crew σ) (e : Event) : List Member → σ → Bool × List Member × σ
  | [], s => (true, [], s)
  | m :: rest, s =>
    if m.listener.isSome then
      match m.registry.follow (crew.host m.name) e s with
      | (false, g, s) => (false, { m with registry := g } :: rest, s)
      | (true, g, s) =>
        let (finished, rest, s) := tellMembers crew e rest s
        (finished, { m with registry := g } :: rest, s)
    else
      let (finished, rest, s) := tellMembers crew e rest s
      (finished, m :: rest, s)

/-- Tells all who listen of events until a member abandons one. -/
def tell (crew : Crew σ) : List Event → Fleet → σ → Bool × Fleet × σ
  | [], f, s => (true, f, s)
  | e :: rest, f, s =>
    let listening := f.observers.filter fun o => o.alive && o.listener ∈ f.tracker.listeners
    let s := listening.foldl (fun s o => crew.observe o.name e s) s
    match tellMembers crew e f.members s with
    | (false, members, s) => (false, { f with members }, s)
    | (true, members, s) => tell crew rest { f with members } s

/-- A module is loaded; gives the number of its mapping. -/
def load (crew : Crew σ) (module : Nat) (mapping : Mapping) (f : Fleet) (s : σ) : Option Nat × Fleet × σ :=
  let (id, events, tracker) := f.tracker.load module mapping
  let (finished, f, s) := tell crew events { f with tracker } s
  (if finished then some id else none, f, s)

/-- A mapping goes away; says whether there was one. -/
def unload (crew : Crew σ) (id : Nat) (f : Fleet) (s : σ) : Option Bool × Fleet × σ :=
  let (known, events, tracker) := f.tracker.unload id
  let (finished, f, s) := tell crew events { f with tracker } s
  (if finished then some known else none, f, s)

/-- Ends a member's patches and its subscription. -/
def close (crew : Crew σ) (m : Member) (f : Fleet) (s : σ) : Fleet × σ :=
  let f := { f with tracker := m.listener.elim f.tracker f.tracker.unsubscribe }
  (f, m.registry.close (crew.host m.name) (f.pin m) s)

/-- Ends a member, if there is one with that name. -/
def drop (crew : Crew σ) (name : String) (f : Fleet) (s : σ) : Fleet × σ :=
  match f.member? name with
  | none => (f, s)
  | some m => close crew m { f with members := f.members.filter (·.name ≠ name) } s

/-- A new member that listens to the tracker or is led by hand; the one with its name ends when the
new one is there. -/
def create (crew : Crew σ) (name : String) (manual : Bool) (f : Fleet) (s : σ) : Fleet × σ :=
  let (fresh, tracker, s) : Member × Tracker × σ :=
    if manual then (⟨name, none, [], {}⟩, f.tracker, s)
    else
      let (listener, events, tracker) := f.tracker.subscribe
      let (_, registry, s) := Registry.followAll (crew.host name) events {} s
      (⟨name, some listener, [], registry⟩, tracker, s)
  let (f, s) := drop crew name { f with tracker } s
  ({ f with members := f.members ++ [fresh] }, s)

/-- A new observer, which is told at once of the mappings there are. -/
def subscribe (crew : Crew σ) (name : String) (f : Fleet) (s : σ) : Fleet × σ :=
  let (listener, events, tracker) := f.tracker.subscribe
  ({ f with tracker, observers := f.observers.filter (·.name ≠ name) ++ [⟨name, listener, true⟩] },
    events.foldl (fun s e => crew.observe name e s) s)

/-- Ends the subscription of an observer. -/
def unsubscribe (name : String) (f : Fleet) : Fleet :=
  match f.observers.find? (·.name = name) with
  | none => f
  | some o => { f with tracker := f.tracker.unsubscribe o.listener }

/-- Drops an observer, but not its subscription. -/
def forget (name : String) (f : Fleet) : Fleet :=
  { f with observers := f.observers.map fun o => if o.name = name then { o with alive := false } else o }

/-- Tells one member of an event. -/
def lead (crew : Crew σ) (name : String) (e : Event) (f : Fleet) (s : σ) : Option Unit × Fleet × σ :=
  match f.member? name with
  | none => (none, f, s)
  | some m =>
    let (finished, registry, s) := m.registry.follow (crew.host name) e s
    (if finished then some () else none, f.setMember { m with registry }, s)

/-- Sets or removes what a member led by hand can hold. -/
def setPinnable (name : String) (id : Nat) (mapping : Option Mapping) (f : Fleet) : Fleet :=
  match f.member? name with
  | none => f
  | some m =>
    f.setMember { m with
      pinnable := m.pinnable.filter (·.1 ≠ id) ++ (mapping.map (id, ·)).toList }

/-- Requests patches from a member. -/
def apply (crew : Crew σ) (name : String) (module : Nat) (targets : List Target) (f : Fleet) (s : σ) :
    Option (List PatchChange) × Fleet × σ :=
  match f.member? name with
  | none => (none, f, s)
  | some m =>
    let (changes, registry, s) := m.registry.apply (crew.host name) (f.pin m) module targets s
    (changes, f.setMember { m with registry }, s)

/-- Withdraws requests from a member. -/
def revert (crew : Crew σ) (name : String) (module : Nat) (offsets : List Nat) (f : Fleet) (s : σ) :
    Option (List PatchChange) × Fleet × σ :=
  match f.member? name with
  | none => (none, f, s)
  | some m =>
    let (changes, registry, s) := m.registry.revert (crew.host name) (f.pin m) module offsets s
    (some changes, f.setMember { m with registry }, s)

/-- The states of a member's records. -/
def query (crew : Crew σ) (name : String) (module : Nat) (f : Fleet) (s : σ) : Option (List PatchState) :=
  (f.member? name).map fun m => m.registry.query (crew.host name) s module

/-- Holds a module of a member in place. -/
def lock (crew : Crew σ) (name : String) (module : Nat) (f : Fleet) (s : σ) : Option Lock × σ :=
  match f.member? name with
  | none => (none, s)
  | some m => m.registry.lock (crew.host name) (f.pin m) module s

end Fleet

/-- An event as it is noted in a log. -/
def Event.line : Event → String
  | .mapped module id mapping =>
    s!"mapped {moduleName module} {mappingName id} {Text.hex mapping.base}"
  | .unmapped id => s!"unmapped {mappingName id}"

end CallProfiler.Image
