import CallProfiler.Code.Displacement
import CallProfiler.Code.Fault

/-!
# Markers in code templates

A code template holds a marker wherever a value is known only when the code is placed: eight bytes
for an absolute value, four for a displacement.  Replacing a marker overwrites every occurrence that
a scan from the front finds; the scan continues behind each occurrence.
-/

namespace CallProfiler.Code

/-- The bits that all markers share. -/
def markerSignature : Nat := 0x31415926

/-- The marker of an absolute value. -/
def absoluteMarker (index : Nat) : Nat := markerSignature * 2 ^ 32 + index

/-- The marker of a displacement. -/
def relativeMarker (index : Nat) : Nat := markerSignature / 256 * 256 + index

/-- The marker of an absolute value as it stands in a template. -/
def absoluteSlot (index : Nat) : List UInt8 := Bytes.littleEndianBytes 8 (absoluteMarker index)

/-- The marker of a displacement as it stands in a template. -/
def relativeSlot (index : Nat) : List UInt8 := Bytes.littleEndianBytes 4 (relativeMarker index)

/-- The offsets of the occurrences of a pattern that a scan finds, the code starting at `offset`;
`skip` bytes are still covered by the occurrence before. -/
def occurrencesFrom (pattern : List UInt8) (offset skip : Nat) : List UInt8 → List Nat
  | [] => []
  | b :: rest =>
    match skip with
    | n + 1 => occurrencesFrom pattern (offset + 1) n rest
    | 0 =>
      if (b :: rest).take pattern.length = pattern then
        offset :: occurrencesFrom pattern (offset + 1) (pattern.length - 1) rest
      else occurrencesFrom pattern (offset + 1) 0 rest

/-- The offsets of the occurrences of a pattern. -/
def occurrences (pattern code : List UInt8) : List Nat := occurrencesFrom pattern 0 0 code

/-- The code with `data` in place of the bytes at `offset`. -/
def overwrite (code : List UInt8) (offset : Nat) (data : List UInt8) : List UInt8 :=
  code.take offset ++ data ++ code.drop (offset + data.length)

/-- Puts a value for every absolute marker and counts them. -/
def replaceAbsolute (code : List UInt8) (index value : Nat) : Nat × List UInt8 :=
  let slots := occurrences (absoluteSlot index) code
  (slots.length, slots.foldl (fun code slot => overwrite code slot (Bytes.littleEndianBytes 8 value)) code)

/-- The displacements to `target` that belong at the offsets of code placed at `base`; the first
that does not fit is a fault. -/
def displacements (base target : Nat) : List Nat → Except Fault (List (Nat × List UInt8))
  | [] => .ok []
  | offset :: rest => do
    let data ← displacement (base + offset + 4) target
    let more ← displacements base target rest
    .ok ((offset, data) :: more)

/-- Puts the displacement to `target` for every relative marker of code placed at `base` and counts
them; if one does not fit, nothing is put. -/
def replaceRelative (code : List UInt8) (base index target : Nat) :
    Except Fault (Nat × List UInt8) :=
  match displacements base target (occurrences (relativeSlot index) code) with
  | .error fault => .error fault
  | .ok slots => .ok (slots.length, slots.foldl (fun code s => overwrite code s.1 s.2) code)

/-- Puts the displacements to `target` into the code that a buffer at `base` holds: all of them are computed
first, then they are stored one after the other.  What is in the buffer when a fault occurs stays there. -/
def fillRelative (base index target : Nat) : ExceptT Fault (StateM (List UInt8)) Nat := do
  let code ← get
  let stores ← displacements base target (occurrences (relativeSlot index) code)
  stores.forM fun s => modify (overwrite · s.1 s.2)
  return stores.length

end CallProfiler.Code
