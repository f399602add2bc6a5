import CallProfiler.Profile.Hotspot
import CallProfiler.Symbol.Function
import CallProfiler.SystemFault

/-!
# Names from a binary

The debug information of a binary tells which functions an address lies in.  A binary that is loaded
at some base gives names to the addresses of the process.
-/

namespace CallProfiler.Symbol

/-- Why a binary gives no names. -/
inductive LoadFault where
  | unreadable (path : String) (fault : SystemFault)
  | notAnObject
  | noUnits
  deriving DecidableEq

def LoadFault.message : LoadFault → String
  | unreadable path fault => s!"Failed to read {path}: {fault.message}"
  | notAnObject => "Failed to parse object file"
  | noUnits => "Failed to load DWARF debug information"

/-- The debug information of a binary. -/
structure Binary where
  units : List CompileUnit
  deriving DecidableEq

namespace Binary

/-- Reads the debug information in the file of a binary. -/
def ofFile (file : ByteArray) : Except LoadFault Binary :=
  match Object.ofFile? file with
  | none => .error .notAnObject
  | some o =>
    match readUnits? (.ofObject o) with
    | none => .error .noUnits
    | some units => .ok ⟨units⟩

/-- The units at an address, those whose addresses end first in front. -/
def unitsAt (b : Binary) (address : Nat) : List CompileUnit :=
  let ranges := b.units.flatMap fun u => u.ranges.map fun range => (range, u)
  ((ranges.mergeSort fun x y => x.1.finish ≤ y.1.finish).filter (·.1.contains address)).map (·.2)

/-- The greatest address, about which nothing is known. -/
def lastAddress : Nat := 2 ^ 64 - 1

/-- The functions at an address of the file, as the first unit knows them that knows the address. -/
def describe (b : Binary) (address : Nat) : Described :=
  if address = lastAddress then ⟨address, []⟩
  else ⟨address, ((b.unitsAt address).findSome? (·.framesAt? address)).getD []⟩

/-- The name of the outermost function at an address of the file. -/
def function? (b : Binary) (address : Nat) : Option String := (b.describe address).function?

/-- The names of the addresses of a process, in which the binary is loaded at a base. -/
def names (b : Binary) (base : Nat) : Profile.Names := fun address =>
  if base ≤ address.toNat then b.function? (address.toNat - base) else none

end Binary

end CallProfiler.Symbol
