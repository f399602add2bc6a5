import CallProfiler.Code.Marker

/-!
# Trampolines

A trampoline is entered instead of a patched function.  It saves the argument registers, reports the
entry, restores them, drops the return address and calls the function's own code; on return it saves
the result registers, reports the exit and jumps to the address that the report gives back.
`Trampoline.render` places the code for one function.
-/

namespace CallProfiler.Code

/-- What trampolines report to: an object and its two entry points. -/
structure Hooks where
  interceptor : Nat
  onEnter : Nat
  onExit : Nat
  deriving DecidableEq

namespace Trampoline

/-- Saves the argument registers and takes the address of the return address. -/
def saveArguments : List UInt8 :=
  [0x50, 0x57, 0x56, 0x52, 0x51, 0x41, 0x50, 0x41, 0x51, 0x41, 0x52,
    0x48, 0x81, 0xEC, 0x88, 0x00, 0x00, 0x00,
    0xF3, 0x0F, 0x7F, 0x44, 0x24, 0x00, 0xF3, 0x0F, 0x7F, 0x4C, 0x24, 0x10,
    0xF3, 0x0F, 0x7F, 0x54, 0x24, 0x20, 0xF3, 0x0F, 0x7F, 0x5C, 0x24, 0x30,
    0xF3, 0x0F, 0x7F, 0x64, 0x24, 0x40, 0xF3, 0x0F, 0x7F, 0x6C, 0x24, 0x50,
    0xF3, 0x0F, 0x7F, 0x74, 0x24, 0x60, 0xF3, 0x0F, 0x7F, 0x7C, 0x24, 0x70,
    0x48, 0x8D, 0xB4, 0x24, 0xC8, 0x00, 0x00, 0x00]

/-- Reads the time stamp into one register. -/
def timestamp : List UInt8 := [0x0F, 0x31, 0x48, 0xC1, 0xE2, 0x20, 0x48, 0x09, 0xC2]

/-- Calls the entry hook with the interceptor and the function's identity. -/
def callEnter : List UInt8 :=
  [0x48, 0xBF] ++ absoluteSlot 1 ++ [0x48, 0xB9] ++ absoluteSlot 2 ++ [0x48, 0xB8] ++
    absoluteSlot 3 ++ [0xFF, 0xD0]

/-- Restores the argument registers. -/
def restoreArguments : List UInt8 :=
  [0xF3, 0x0F, 0x6F, 0x44, 0x24, 0x00, 0xF3, 0x0F, 0x6F, 0x4C, 0x24, 0x10,
    0xF3, 0x0F, 0x6F, 0x54, 0x24, 0x20, 0xF3, 0x0F, 0x6F, 0x5C, 0x24, 0x30,
    0xF3, 0x0F, 0x6F, 0x64, 0x24, 0x40, 0xF3, 0x0F, 0x6F, 0x6C, 0x24, 0x50,
    0xF3, 0x0F, 0x6F, 0x74, 0x24, 0x60, 0xF3, 0x0F, 0x6F, 0x7C, 0x24, 0x70,
    0x48, 0x81, 0xC4, 0x88, 0x00, 0x00, 0x00,
    0x41, 0x5A, 0x41, 0x59, 0x41, 0x58, 0x59, 0x5A, 0x5E, 0x5F, 0x58]

/-- Drops the return address and calls the function's own code. -/
def callBody : List UInt8 := [0x48, 0x83, 0xC4, 0x08, 0xE8] ++ relativeSlot 0x85

/-- Saves the result registers. -/
def saveResults : List UInt8 :=
  [0x50, 0x52, 0x48, 0x83, 0xEC, 0x20,
    0xF3, 0x0F, 0x7F, 0x44, 0x24, 0x00, 0xF3, 0x0F, 0x7F, 0x4C, 0x24, 0x10]

/-- Calls the exit hook and keeps the address that it gives back. -/
def callExit : List UInt8 :=
  [0x48, 0xBF] ++ absoluteSlot 1 ++ [0x48, 0x8D, 0x74, 0x24, 0x28, 0x48, 0xB8] ++ absoluteSlot 4 ++
    [0xFF, 0xD0, 0x49, 0x89, 0xC3]

/-- Restores the result registers and jumps to the kept address. -/
def resume : List UInt8 :=
  [0xF3, 0x0F, 0x6F, 0x44, 0x24, 0x00, 0xF3, 0x0F, 0x6F, 0x4C, 0x24, 0x10,
    0x48, 0x83, 0xC4, 0x20, 0x5A, 0x58, 0x41, 0xFF, 0xE3]

/-- The code of every trampoline, with markers for what differs. -/
def template : List UInt8 :=
  saveArguments ++ timestamp ++ callEnter ++ restoreArguments ++ callBody ++
    saveResults ++ timestamp ++ callExit ++ resume

/-- The byte behind the end of the code. -/
def filler : UInt8 := 0xCC

/-- Bytes that a trampoline takes: its code, filled up to a multiple of sixteen. -/
def size : Nat := (template.length + 15) / 16 * 16

/-- The trampoline placed at `base` that reports `id` and calls the code at `entry`. -/
def render (base id : Nat) (hooks : Hooks) (entry : Nat) : Except Fault (List UInt8) :=
  let code := (replaceAbsolute template 1 hooks.interceptor).2
  let code := (replaceAbsolute code 2 id).2
  let code := (replaceAbsolute code 3 hooks.onEnter).2
  let code := (replaceAbsolute code 4 hooks.onExit).2
  (replaceRelative code base 0x85 entry).map fun (_, code) =>
    code ++ List.replicate (size - code.length) filler

end Trampoline

end CallProfiler.Code
