import CallProfiler.Memory.Arena
import CallProfiler.Text.Shown

/-!
# Guards and blocks, shown
-/

namespace CallProfiler.Memory

open Text

/-- A range as a record of its two ends. -/
def Range.shown (r : Range) : Shown :=
  .record "AddressRange" [("start", .word (toString r.start)), ("end", .word (toString r.finish))] true

/-- A guard as a record; what it restores is not shown. -/
def Guard.shown (g : Guard) : Shown :=
  .record "ScopedProtection" [("region", g.region.shown)] false

/-- A block as a record of address and length. -/
def Block.shown (b : Block) : Shown :=
  .record "ExecutableBlock" [("ptr", .word (hex b.address)), ("len", .word (toString b.length))] true

end CallProfiler.Memory
