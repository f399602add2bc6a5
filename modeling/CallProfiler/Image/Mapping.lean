import CallProfiler.Memory.Space

/-!
# Mapped modules

A module is loaded as a mapping: regions of memory around a load base.  Functions are named by their
offset from the base.  Modules and mappings are known by numbers.
-/

namespace CallProfiler.Image

/-- The regions of a module at one time. -/
structure Mapping where
  path : Option String
  /-- Offsets of functions count from here. -/
  base : Nat
  regions : List Memory.Region
  deriving DecidableEq

namespace Mapping

/-- The regions whose bytes may be executed. -/
def executableRegions (m : Mapping) : List Memory.Region :=
  m.regions.filter (·.protection.execute)

/-- The smallest range that covers the executable regions. -/
def executableSpan (m : Mapping) : Option Memory.Range :=
  Memory.Range.span (m.executableRegions.map (·.range))

/-- The address of the function at an offset. -/
def addressOf (m : Mapping) (offset : Nat) : Nat := m.base + offset

end Mapping

/-- How a module is named in messages. -/
def moduleName (id : Nat) : String := s!"Module#{id}"

/-- How a mapping is named in messages. -/
def mappingName (id : Nat) : String := s!"Mapping#{id}"

end CallProfiler.Image
