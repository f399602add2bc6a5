import CallProfiler.Bytes.Reader
import CallProfiler.Memory.Range
import CallProfiler.Text.Lossy

/-!
# Line tables

Which line of which file the code at an address comes from is told by a program for a small machine:
it holds an address and a place in the sources, and its instructions move both and add rows to a
table.  Rows form sequences; an address lies in the last row of its sequence that is not behind it.
-/

namespace CallProfiler.Symbol

open Bytes

/-- A source file of a line table. -/
structure SourceFile where
  name : List UInt8
  /-- The number of its directory; zero is the directory of the compilation. -/
  directory : Nat
  deriving DecidableEq

/-- Reads what follows the name of a file; times and sizes mean nothing here. -/
def SourceFile.readBehindName (name : List UInt8) : Reader SourceFile := do
  let directory ← Reader.grouped
  let _ ← Reader.grouped
  let _ ← Reader.grouped
  return ⟨name, directory⟩

/-- A program for the machine, with what its instructions mean. -/
structure LineProgram where
  addressSize : Nat
  /-- Bytes of the smallest instruction of the code. -/
  unit : Nat
  /-- Operations in an instruction of the code. -/
  operations : Nat
  /-- The least step of lines in a short instruction. -/
  lineBase : Int
  /-- How many steps of lines a short instruction can make. -/
  lineRange : Nat
  /-- The first number of a short instruction. -/
  shortBase : Nat
  /-- How many numbers follow each of the other instructions. -/
  argumentCounts : List Nat
  directories : List (List UInt8)
  files : List SourceFile
  instructions : List UInt8
  deriving DecidableEq

namespace LineProgram

/-- Reads a text; an empty one ends a list. -/
def readText : Reader (Option (List UInt8)) := do
  let text ← Reader.terminated
  return if text = [] then none else some text

def readFile : Reader (Option SourceFile) := do
  match ← readText with
  | none => return none
  | some name => return some (← SourceFile.readBehindName name)

/-- Lengths from here on are written in another format. -/
def firstReservedLength : Nat := 0xFFFFFFF0

/-- Takes the bytes whose length stands before them. -/
def takeCounted : Reader (List UInt8) := do
  Reader.bytes (← (Reader.number 4).check (· < firstReservedLength))

/-- Reads a program; its instructions follow the header, whose length it gives. -/
def read (addressSize : Nat) : Reader LineProgram :=
  Reader.within takeCounted do
    let version ← (Reader.number 2).check fun v => 2 ≤ v && v ≤ 4
    let header ← Reader.bytes (← Reader.number 4)
    let instructions ← get
    Reader.within (pure header) do
      let unit ← (Reader.number 1).check (· ≠ 0)
      let operations ← if version < 4 then pure 1 else (Reader.number 1).check (· ≠ 0)
      let _ ← Reader.number 1
      let lineBase := signedLittleEndian (← Reader.bytes 1)
      let lineRange ← (Reader.number 1).check (· ≠ 0)
      let shortBase ← (Reader.number 1).check (· ≠ 0)
      let argumentCounts := (← Reader.bytes (shortBase - 1)).map UInt8.toNat
      let directories ← Reader.series readText
      let files ← Reader.series readFile
      return {
        addressSize, unit, operations, lineBase, lineRange, shortBase, argumentCounts, directories
        files, instructions }

/-- An instruction of the machine. -/
inductive Instruction where
  /-- Moves address and line together and adds a row. -/
  | short (number : Nat)
  | addRow
  | advanceAddress (operations : Nat)
  | advanceLine (step : Int)
  | setFile (file : Nat)
  /-- Moves the address as the last short instruction would. -/
  | advanceMost
  | advanceFixed (bytes : Nat)
  | endSequence
  | setAddress (address : Nat)
  | defineFile (file : SourceFile)
  /-- Tells nothing that is kept. -/
  | idle
  deriving DecidableEq

/-- Reads an instruction behind a zero and its length. -/
def readExtended (p : LineProgram) : Reader Instruction := do
  match ← Reader.number 1 with
  | 1 => return .endSequence
  | 2 => return .setAddress (← Reader.number p.addressSize)
  | 3 => return .defineFile (← SourceFile.readBehindName (← Reader.terminated))
  | 4 => do
    let _ ← Reader.grouped
    return .idle
  | _ => return .idle

/-- Skips grouped numbers. -/
def skipGrouped : Nat → Reader Unit
  | 0 => pure ()
  | count + 1 => do
    let _ ← Reader.grouped
    skipGrouped count

/-- Reads an instruction. -/
def readInstruction (p : LineProgram) : Reader Instruction := do
  let number ← Reader.number 1
  if number = 0 then
    let size ← Reader.grouped
    Reader.within (Reader.bytes size) p.readExtended
  else if p.shortBase ≤ number then return .short number
  else
    match number with
    | 1 => return .addRow
    | 2 => return .advanceAddress (← Reader.grouped)
    | 3 => return .advanceLine (← Reader.signedGrouped)
    | 4 => return .setFile (← Reader.grouped)
    | 5 => do
      skipGrouped 1
      return .idle
    | 6 => return .idle
    | 7 => return .idle
    | 8 => return .advanceMost
    | 9 => return .advanceFixed (← Reader.number 2)
    | 10 => return .idle
    | 11 => return .idle
    | 12 => do
      skipGrouped 1
      return .idle
    | _ => do
      skipGrouped (p.argumentCounts.getD (number - 1) 0)
      return .idle

end LineProgram

/-- What the machine holds. -/
structure LineState where
  address : Nat
  operation : Nat
  file : Nat
  line : Nat
  /-- The code at the address was left out of the binary, so that no rows are added. -/
  leftOut : Bool
  deriving DecidableEq

/-- How a sequence starts. -/
def LineState.fresh : LineState := ⟨0, 0, 1, 1, false⟩

/-- A row of the table: the place of the code from an address on. -/
structure LineRow where
  address : Nat
  file : Nat
  line : Nat
  deriving DecidableEq

/-- The rows of a stretch of code. -/
structure LineSequence where
  range : Memory.Range
  rows : List LineRow
  deriving DecidableEq

/-- The machine at work: rows of the open sequence with the last one first, finished sequences with
the last one first, and the files known so far. -/
structure LineMachine where
  state : LineState
  rows : List LineRow
  sequences : List LineSequence
  files : List SourceFile
  deriving DecidableEq

namespace LineMachine

/-- Lines are counted with 64 bits and kept with 32. -/
def advanceLine (step : Int) (line : Nat) : Nat :=
  if step < 0 then line - step.natAbs else (line + step.toNat) % 2 ^ 64

/-- Moves the address by bytes; it must not pass the greatest one. -/
def advanceBytes? (p : LineProgram) (bytes : Nat) (s : LineState) : Option LineState :=
  if s.leftOut then some s
  else if s.address + bytes < 256 ^ p.addressSize then some { s with address := s.address + bytes }
  else none

/-- Moves the address by operations. -/
def advance? (p : LineProgram) (operations : Nat) (s : LineState) : Option LineState :=
  if s.leftOut then some s
  else
    let total := s.operation + operations
    (advanceBytes? p (p.unit * (total / p.operations) % 2 ^ 64) s).map fun s =>
      { s with operation := total % p.operations }

/-- Goes to an address.  One below the present address, or one of the last two, stands for code that
was left out. -/
def goTo (p : LineProgram) (address : Nat) (s : LineState) : LineState :=
  if address < s.address ∨ 256 ^ p.addressSize - 2 ≤ address then { s with leftOut := true }
  else { s with address, operation := 0, leftOut := false }

/-- Adds a row, which takes the place of one at the same address. -/
def addRow (m : LineMachine) : LineMachine :=
  if m.state.leftOut then m
  else
    let row : LineRow := ⟨m.state.address, m.state.file, m.state.line % 2 ^ 32⟩
    match m.rows with
    | [] => { m with rows := [row] }
    | last :: rest =>
      { m with rows := if last.address = row.address then row :: rest else row :: last :: rest }

/-- Ends the sequence; one without rows is dropped. -/
def endSequence (m : LineMachine) : LineMachine :=
  let m' := { m with state := .fresh }
  if m.state.leftOut then m'
  else
    match m.rows.reverse with
    | [] => m'
    | first :: rest =>
      { m' with
        rows := []
        sequences := ⟨⟨first.address, m.state.address⟩, first :: rest⟩ :: m.sequences }

/-- Executes an instruction; nothing if an address passes the greatest one. -/
def execute? (p : LineProgram) (m : LineMachine) : LineProgram.Instruction → Option LineMachine
  | .short number => do
    let step := number - p.shortBase
    let line := advanceLine (p.lineBase + (step % p.lineRange : Nat)) m.state.line
    let state ← advance? p (step / p.lineRange) { m.state with line }
    return { m with state }.addRow
  | .addRow => some m.addRow
  | .advanceAddress operations =>
    (advance? p operations m.state).map fun state => { m with state }
  | .advanceLine step =>
    some { m with state := { m.state with line := advanceLine step m.state.line } }
  | .setFile file => some { m with state := { m.state with file } }
  | .advanceMost =>
    (advance? p ((255 - p.shortBase) / p.lineRange) m.state).map fun state => { m with state }
  | .advanceFixed bytes =>
    (advanceBytes? p bytes m.state).map fun state => { m with state := { state with operation := 0 } }
  | .endSequence => some m.endSequence
  | .setAddress address => some { m with state := goTo p address m.state }
  | .defineFile file => some { m with files := m.files ++ [file] }
  | .idle => some m

end LineMachine

/-- Where the code of a unit comes from. -/
structure LineTable where
  sequences : List LineSequence
  /-- The paths of the source files; the first one is the main file. -/
  paths : List String
  deriving DecidableEq

/-! ## Paths -/

/-- The path does not depend on a directory. -/
def hasRoot (separator : Char) (path : List Char) : Bool :=
  match path with
  | [] => false
  | c :: rest => c = separator || (c.toNat < 128 && [':', separator].isPrefixOf rest)

/-- A path within a directory, unless it has a root of its own. -/
def joinPath (directory path : List Char) : List Char :=
  if hasRoot '/' path || hasRoot '\\' path then path
  else
    let separator := if hasRoot '\\' directory then '\\' else '/'
    match directory.getLast? with
    | none => path
    | some last => if last = separator then directory ++ path else directory ++ separator :: path

/-- The path of a source file. -/
def SourceFile.path (f : SourceFile) (base : Option (List UInt8)) (directories : List (List UInt8)) :
    String :=
  let base := (base.elim "" Text.lossy).toList
  let directory := if f.directory = 0 then none else directories[f.directory - 1]?
  let folder := directory.elim base fun d => joinPath base (Text.lossy d).toList
  String.ofList (joinPath folder (Text.lossy f.name).toList)

namespace LineTable

/-- Runs a program for a unit with a directory and a main file.  Nothing if an instruction is cut
off or cannot be executed. -/
def ofProgram? (p : LineProgram) (directory mainFile : Option (List UInt8)) : Option LineTable := do
  let instructions ← Reader.all? p.readInstruction p.instructions
  let m ← instructions.foldlM (LineMachine.execute? p) ⟨.fresh, [], [], p.files⟩
  let path (f : SourceFile) : String := f.path directory p.directories
  let mainPath := mainFile.elim "" fun name => path ⟨name, 0⟩
  return ⟨m.sequences.reverse, mainPath :: m.files.map path⟩

/-- The path with a number. -/
def path? (t : LineTable) (file : Nat) : Option String := t.paths[file]?

end LineTable

end CallProfiler.Symbol
