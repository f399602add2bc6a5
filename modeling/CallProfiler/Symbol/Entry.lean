import CallProfiler.Bytes.Reader
import CallProfiler.Memory.Range

/-!
# Entries of debug information

Debug information is a tree of entries, written in order with an end mark behind the children of
each.  An entry starts with the number of its abbreviation, which tells its tag, whether it has
children, and the attributes whose values follow.
-/

namespace CallProfiler.Symbol

open Bytes

/-- What an entry is about. -/
inductive Tag where
  | function
  | inlinedCall
  | other
  deriving DecidableEq

def Tag.ofNumber (n : Nat) : Tag :=
  match n with
  | 0x1D => inlinedCall
  | 0x2E => function
  | _ => other

/-- What a value says about its entry. -/
inductive Attribute where
  | name
  | linkageName
  | lineProgram
  | lowAddress
  | highAddress
  | language
  | directory
  /-- The entry that this one completes. -/
  | origin
  | callFile
  | callLine
  | other
  deriving DecidableEq

def Attribute.ofNumber (n : Nat) : Attribute :=
  match n with
  | 0x03 => name
  | 0x10 => lineProgram
  | 0x11 => lowAddress
  | 0x12 => highAddress
  | 0x13 => language
  | 0x1B => directory
  | 0x31 => origin
  | 0x47 => origin
  | 0x58 => callFile
  | 0x59 => callLine
  | 0x6E => linkageName
  | 0x2007 => linkageName
  | _ => other

/-- A value of an attribute. -/
inductive Value where
  | address (address : Nat)
  | constant (n : Nat)
  | text (bytes : List UInt8)
  /-- Another entry, as its offset in the unit. -/
  | entry (offset : Nat)
  /-- A place in another section. -/
  | elsewhere (offset : Nat)
  deriving DecidableEq

namespace Value

def address? : Value → Option Nat
  | address a => some a
  | _ => none

def constant? : Value → Option Nat
  | constant n => some n
  | _ => none

def text? : Value → Option (List UInt8)
  | text s => some s
  | _ => none

def entry? : Value → Option Nat
  | entry offset => some offset
  | _ => none

def elsewhere? : Value → Option Nat
  | elsewhere offset => some offset
  | _ => none

/-- Reads a value of a form; addresses have `addressSize` bytes. -/
def read (addressSize form : Nat) : Reader Value :=
  match form with
  | 0x01 => address <$> .number addressSize
  | 0x05 => constant <$> .number 2
  | 0x06 => constant <$> .number 4
  | 0x07 => constant <$> .number 8
  | 0x08 => text <$> .terminated
  | 0x0B => constant <$> .number 1
  | 0x13 => entry <$> .number 4
  | 0x17 => elsewhere <$> .number 4
  | _ => failure

end Value

/-- What entries with one number have in common. -/
structure Abbreviation where
  number : Nat
  tag : Tag
  hasChildren : Bool
  /-- The attributes and the forms of their values. -/
  attributes : List (Attribute × Nat)
  deriving DecidableEq

namespace Abbreviation

/-- A grouped number of at most 16 bits. -/
def smallNumber : Reader Nat := Reader.grouped.check (· < 2 ^ 16)

/-- Reads an attribute and its form; two zeros end the list. -/
def readAttribute : Reader (Option (Attribute × Nat)) := do
  let name ← smallNumber
  let form ← smallNumber
  if name ≠ 0 ∧ form ≠ 0 then return some (.ofNumber name, form)
  else if name = form then return none
  else failure

/-- Reads an abbreviation; the number zero ends the table. -/
def read : Reader (Option Abbreviation) := do
  let number ← Reader.grouped
  if number = 0 then return none
  let tag ← smallNumber.check (· ≠ 0)
  let children ← (Reader.number 1).check (· ≤ 1)
  return some ⟨number, .ofNumber tag, children = 1, ← Reader.series readAttribute⟩

/-- Reads the table of a unit, in which no number is used twice. -/
def readTable : Reader (List Abbreviation) :=
  (Reader.series read).check fun table => (table.map (·.number)).eraseDups.length = table.length

end Abbreviation

/-- An entry with its values. -/
structure Entry where
  tag : Tag
  hasChildren : Bool
  values : List (Attribute × Value)
  deriving DecidableEq

namespace Entry

/-- Reads an entry; the number zero marks the end of a list of children. -/
def read (addressSize : Nat) (table : List Abbreviation) : Reader (Option Entry) := do
  let number ← Reader.grouped
  if number = 0 then return none
  match table.find? (·.number = number) with
  | none => failure
  | some a =>
    let values ← a.attributes.mapM fun (which, form) => do
      return (which, ← Value.read addressSize form)
    return some ⟨a.tag, a.hasChildren, values⟩

/-- The last value of an attribute that can be taken as one of a kind. -/
def last? {α : Type} (e : Entry) (which : Attribute) (kind : Value → Option α) : Option α :=
  e.values.reverse.findSome? fun (a, v) => if a = which then kind v else none

/-- The addresses of an entry, if it has any; the end is an address or a distance from the start. -/
def range? (addressSize : Nat) (e : Entry) : Option Memory.Range := do
  let start ← e.last? .lowAddress Value.address?
  let finish ←
    match e.last? .highAddress Value.address? with
    | some finish => some finish
    | none => (e.last? .highAddress Value.constant?).map fun size =>
        (start + size) % 256 ^ addressSize
  if start < finish then some ⟨start, finish⟩ else none

end Entry

end CallProfiler.Symbol
