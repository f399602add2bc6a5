import CallProfiler.Text.Hex

/-!
# Described addresses

An address in a binary lies in a function, which may have been inlined into others; each of them has
a place in a source file.
-/

namespace CallProfiler.Symbol

/-- A place in the sources, as far as it is known. -/
structure Place where
  file : Option String
  line : Option Nat
  deriving DecidableEq

/-- A function at an address. -/
structure Frame where
  function : String
  place : Option Place
  deriving DecidableEq

/-- An address with the functions that it lies in, the innermost first. -/
structure Described where
  address : Nat
  frames : List Frame
  deriving DecidableEq

/-- The file and the line, if the file is known. -/
def Place.text (p : Place) : String :=
  match p.file, p.line with
  | none, _ => ""
  | some file, none => s!" ({file})"
  | some file, some line => s!" ({file}:{line})"

def Frame.text (f : Frame) : String := f.function ++ f.place.elim "" Place.text

namespace Described

def isKnown (d : Described) : Bool := d.frames ≠ []

/-- The function that all others are inlined into. -/
def function? (d : Described) : Option String := d.frames.getLast?.map (·.function)

/-- One line for every function. -/
def text (d : Described) : String :=
  match d.frames with
  | [] => s!"{Text.hex d.address} <unknown>"
  | frames => s!"{Text.hex d.address} " ++ "\n  inlined into ".intercalate (frames.map Frame.text)

end Described

end CallProfiler.Symbol
