import CallProfiler.Bytes.Number

/-!
# Object files

A binary is read as an object file of 64-bit words with the least significant byte first.  Here only
its sections matter: each has a name and bytes.
-/

namespace CallProfiler.Symbol

/-- Where a section lies in its file. -/
structure SectionHeader where
  name : Nat
  kind : Nat
  flags : Nat
  offset : Nat
  size : Nat
  link : Nat
  deriving DecidableEq

/-- A file with the headers of its sections and the offset of their names. -/
structure Object where
  file : ByteArray
  headers : List SectionHeader
  names : List UInt8

namespace Object

/-- Bytes of a file, if all of them are in it. -/
def bytesAt? (file : ByteArray) (offset size : Nat) : Option (List UInt8) :=
  if offset + size ≤ file.size then some (file.extract offset (offset + size)).toList else none

/-- A number in a file. -/
def numberAt? (file : ByteArray) (offset width : Nat) : Option Nat :=
  (bytesAt? file offset width).map Bytes.littleEndian

/-- How an object file of this kind starts. -/
def magic : List UInt8 := [0x7F, 0x45, 0x4C, 0x46, 2, 1, 1]

/-- Bytes of the header of a file. -/
def fileHeaderSize : Nat := 64

/-- Bytes of the header of a section. -/
def sectionHeaderSize : Nat := 64

/-- Bytes of the header of a segment. -/
def segmentHeaderSize : Nat := 56

/-- A section of this kind has no bytes in the file. -/
def emptyKind : Nat := 8

/-- Set in the flags of a section whose bytes are packed. -/
def packedFlag : Nat := 0x800

def sectionHeaderAt? (file : ByteArray) (offset : Nat) : Option SectionHeader := do
  return {
    name := ← numberAt? file offset 4
    kind := ← numberAt? file (offset + 4) 4
    flags := ← numberAt? file (offset + 8) 8
    offset := ← numberAt? file (offset + 24) 8
    size := ← numberAt? file (offset + 32) 8
    link := ← numberAt? file (offset + 40) 4 }

/-- The table of segments is absent or lies in the file. -/
def segmentsInFile? (file : ByteArray) : Option Unit := do
  let offset ← numberAt? file 32 8
  let count ← numberAt? file 56 2
  if offset = 0 ∨ count = 0 then return
  if (← numberAt? file 54 2) ≠ segmentHeaderSize then none
  if file.size < offset + count * segmentHeaderSize then none

/-- The headers of all sections.  A count that does not fit is found in the first header. -/
def sectionHeaders? (file : ByteArray) : Option (List SectionHeader) := do
  let offset ← numberAt? file 40 8
  if offset = 0 then return []
  let width ← numberAt? file 58 2
  let count ←
    match ← numberAt? file 60 2 with
    | 0 => if width = sectionHeaderSize then (sectionHeaderAt? file offset).map (·.size) else none
    | count => some count
  if count = 0 then return []
  if width ≠ sectionHeaderSize ∨ file.size < offset + count * sectionHeaderSize then none
  (List.range count).mapM fun i => sectionHeaderAt? file (offset + i * sectionHeaderSize)

/-- The number that says that an index is found in the first header. -/
def indexElsewhere : Nat := 0xFFFF

/-- The names of sections, each up to a zero. -/
def sectionNames? (file : ByteArray) (headers : List SectionHeader) : Option (List UInt8) :=
  match headers with
  | [] => some []
  | first :: _ => do
    let index ← numberAt? file 62 2
    let index := if index = indexElsewhere then first.link else index
    if index = 0 then none
    let h ← headers[index]?
    if h.kind = emptyKind then return []
    return (bytesAt? file h.offset h.size).getD []

/-- Reads a file; nothing if it is no object file. -/
def ofFile? (file : ByteArray) : Option Object := do
  if (← bytesAt? file 0 fileHeaderSize).take magic.length ≠ magic then none
  segmentsInFile? file
  let headers ← sectionHeaders? file
  return ⟨file, headers, ← sectionNames? file headers⟩

/-- The name of a section, if it ends where names end. -/
def nameOf? (o : Object) (h : SectionHeader) : Option (List UInt8) :=
  match (o.names.drop h.name).span (· ≠ 0) with
  | (name, 0 :: _) => some name
  | _ => none

/-- The bytes of a section; a packed one and one that is not in the file have none. -/
def bytesOf (o : Object) (h : SectionHeader) : List UInt8 :=
  if h.kind = emptyKind ∨ h.flags / packedFlag % 2 = 1 then []
  else (bytesAt? o.file h.offset h.size).getD []

/-- The bytes of the first section with a name; none if there is no such section. -/
def sectionBytes (o : Object) (name : String) : List UInt8 :=
  match o.headers.find? fun h => o.nameOf? h = some name.toUTF8.toList with
  | none => []
  | some h => o.bytesOf h

end Object

end CallProfiler.Symbol
