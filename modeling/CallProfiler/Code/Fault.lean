import CallProfiler.Memory.Fault

/-!
# Why a function cannot be patched
-/

namespace CallProfiler.Code

/-- Why the start of a function cannot be diverted by a short jump. -/
inductive JumperFault where
  /-- The leading instruction depends on its address. -/
  | relativeLeading (address : Nat)
  /-- The leading instruction is a single byte or none at all. -/
  | shortLeading (address : Nat)
  /-- The bytes in front are not one repeated value. -/
  | usedPadding (address : Nat)
  deriving DecidableEq

def JumperFault.message : JumperFault → String
  | relativeLeading a =>
    s!"Leading instruction at {Text.hex a} is a relative branch; relocating it is currently prohibited"
  | shortLeading a => s!"Leading instruction at {Text.hex a} is shorter than a short jump"
  | usedPadding a => s!"Padding before {Text.hex a} is not uniformly filled"

/-- The name of the kind of fault. -/
def JumperFault.kind : JumperFault → String
  | relativeLeading _ => "CurrentlyProhibited"
  | shortLeading _ => "LeadingTooShort"
  | usedPadding _ => "PaddingInsufficient"

/-- A fault as a value. -/
def JumperFault.shown (f : JumperFault) : Text.Shown :=
  match f with
  | relativeLeading a => .call f.kind [.word (toString a)]
  | shortLeading a => .call f.kind [.word (toString a)]
  | usedPadding a => .call f.kind [.word (toString a)]

/-- What stands in the way of moving an instruction. -/
inductive Obstacle where
  | functionTooShort
  | pastFunctionEnd
  | breakpoint
  | pointerRelative
  | leavingShortJump
  /-- An obstacle in the words of whoever met it. -/
  | described (text : String)
  deriving DecidableEq

def Obstacle.message : Obstacle → String
  | functionTooShort => "function too short to be moved"
  | pastFunctionEnd => "prologue runs past the function end"
  | breakpoint => "debug interrupt inside moved range"
  | pointerRelative => "rip-based addressing"
  | leavingShortJump => "short relative jump outside the moved range"
  | described text => text

/-- Why a function cannot be patched. -/
inductive Fault where
  | jumper (cause : JumperFault)
  | memory (cause : Memory.Fault)
  | undecodable (address : Nat)
  | immovable (address : Nat) (obstacle : Obstacle)
  | outOfRange (origin target : Nat)
  | unsupported
  deriving DecidableEq

def Fault.message : Fault → String
  | .jumper cause => cause.message
  | .memory cause => cause.message
  | .undecodable a => s!"Failed to decode instruction at {Text.hex a}"
  | .immovable a obstacle => s!"Cannot relocate instruction at {Text.hex a}: {obstacle.message}"
  | .outOfRange origin target =>
    s!"Displacement from {Text.hex origin} to {Text.hex target} does not fit in 32 bits"
  | .unsupported => "Instrumentation is not supported on this platform"

/-- The name of the kind of fault; a fault from elsewhere keeps its own. -/
def Fault.kind : Fault → String
  | .jumper cause => cause.kind
  | .memory cause => cause.kind
  | .undecodable _ => "Undecodable"
  | .immovable .. => "Untranslatable"
  | .outOfRange .. => "OutOfRange"
  | .unsupported => "Unsupported"

/-- What a fault comes from, as a separate message. -/
def Fault.sources : Fault → List String
  | .memory cause => cause.sources
  | _ => []

/-- A fault as a value. -/
def Fault.shown (f : Fault) : Text.Shown :=
  let number (n : Nat) := Text.Shown.word (toString n)
  match f with
  | .jumper cause => .call "Jumper" [cause.shown]
  | .memory cause => .call "Memory" [cause.shown]
  | .undecodable a => .call f.kind [number a]
  | .immovable a obstacle =>
    .record f.kind [("address", number a), ("reason", .quoted obstacle.message)] true
  | .outOfRange origin target => .record f.kind [("from", number origin), ("to", number target)] true
  | .unsupported => .word f.kind

end CallProfiler.Code
