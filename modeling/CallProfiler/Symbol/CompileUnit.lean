import CallProfiler.Symbol.Entry
import CallProfiler.Symbol.LineTable
import CallProfiler.Symbol.Object

/-!
# Compile units

The debug information of a binary is a run of units, one for each source file that was compiled.  A
unit has a root entry, which tells language, directory and addresses, and below it the entries of its
functions.
-/

namespace CallProfiler.Symbol

open Bytes

/-- The sections that debug information is read from. -/
structure DebugSections where
  entries : List UInt8
  abbreviations : List UInt8
  lines : List UInt8
  deriving DecidableEq

def DebugSections.ofObject (o : Object) : DebugSections :=
  ⟨o.sectionBytes ".debug_info", o.sectionBytes ".debug_abbrev", o.sectionBytes ".debug_line"⟩

/-- A unit as it stands in its section. -/
structure UnitFrame where
  addressSize : Nat
  /-- Where the abbreviations of the unit start. -/
  abbreviations : Nat
  entries : List UInt8
  deriving DecidableEq

namespace UnitFrame

/-- Bytes of a unit before its entries. -/
def headerSize : Nat := 11

/-- Reads a unit. -/
def read : Reader UnitFrame :=
  Reader.within LineProgram.takeCounted do
    let _ ← (Reader.number 2).check fun version => 2 ≤ version && version ≤ 4
    let abbreviations ← Reader.number 4
    let addressSize ← (Reader.number 1).check ([1, 2, 4, 8].contains ·)
    return ⟨addressSize, abbreviations, ← get⟩

end UnitFrame

/-- Where the lines of a unit are told. -/
inductive UnitLines where
  | absent
  | unreadable
  | table (table : LineTable)
  deriving DecidableEq

/-- A compile unit. -/
structure CompileUnit where
  frame : UnitFrame
  abbreviations : List Abbreviation
  root : Entry
  /-- All entries and end marks in order, if all of them can be read. -/
  entries : Option (List (Option Entry))
  lines : UnitLines
  deriving DecidableEq

namespace CompileUnit

/-- The path table of a unit; nothing if its program is announced but does not start as one. -/
def readLines? (s : DebugSections) (frame : UnitFrame) (root : Entry) : Option UnitLines :=
  match root.last? .lineProgram Value.elsewhere? with
  | none => some .absent
  | some offset => do
    if s.lines.length < offset then none
    let (program, _) ← LineProgram.read frame.addressSize (s.lines.drop offset)
    match LineTable.ofProgram? program (root.last? .directory Value.text?)
        (root.last? .name Value.text?) with
    | none => return .unreadable
    | some table => return .table table

/-- The unit in a frame; nothing if its abbreviations, its root entry or the header of its line
program cannot be read. -/
def ofFrame? (s : DebugSections) (frame : UnitFrame) : Option CompileUnit := do
  if s.abbreviations.length < frame.abbreviations then none
  let (abbreviations, _) ← Abbreviation.readTable (s.abbreviations.drop frame.abbreviations)
  let (root, _) ← Entry.read frame.addressSize abbreviations frame.entries
  let root ← root
  let lines ← readLines? s frame root
  return {
    frame, abbreviations, root, lines
    entries := Reader.all? (Entry.read frame.addressSize abbreviations) frame.entries }

/-- The entry at an offset from the start of the unit. -/
def entryAt? (u : CompileUnit) (offset : Nat) : Option Entry :=
  if UnitFrame.headerSize ≤ offset then do
    let (entry, _) ← Entry.read u.frame.addressSize u.abbreviations
      (u.frame.entries.drop (offset - UnitFrame.headerSize))
    entry
  else none

def language (u : CompileUnit) : Option Nat := u.root.last? .language Value.constant?

/-- The addresses of a unit: those of its root, or else those of its lines. -/
def ranges (u : CompileUnit) : List Memory.Range :=
  match u.root.range? u.frame.addressSize, u.lines with
  | some range, _ => [range]
  | none, .table table => table.sequences.map (·.range)
  | none, _ => []

/-- The path of a source file of a unit. -/
def path? (u : CompileUnit) (file : Nat) : Option String :=
  match u.lines with
  | .table table => table.path? file
  | _ => none

end CompileUnit

/-- The units of debug information.  Nothing if a unit does not stand in its section as it should;
units that cannot be read for themselves are left out. -/
def readUnits? (s : DebugSections) : Option (List CompileUnit) :=
  (Reader.all? UnitFrame.read s.entries).map fun frames => frames.filterMap (CompileUnit.ofFrame? s)

end CallProfiler.Symbol
