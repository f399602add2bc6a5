import CallProfiler.Code.Marker
import CallProfiler.Instruction.Prologue
import CallProfiler.Memory.Space

/-!
# Diverting a function by two bytes

A long jump is put into the unused bytes in front of a function.  Diverting the function then takes
a two-byte short jump back to it over the function's first instruction.  If the function starts with
bytes that do nothing they are simply overwritten; otherwise a copy of the leading instruction and a
short jump behind it follow the long jump, and the function's own behaviour is entered there.
-/

namespace CallProfiler.Code

open Memory
open Instruction (Decoder)

/-- The long jump: through the eight bytes behind it, which hold the address. -/
def longJump (target : Nat) : List UInt8 :=
  [0xFF, 0x25, 0x00, 0x00, 0x00, 0x00] ++ Bytes.littleEndianBytes 8 target

/-- Bytes of a long jump with its address. -/
def longJumpSize : Nat := 14

/-- Bytes of a short jump. -/
def shortJumpSize : Nat := 2

/-- The short jump by a displacement. -/
def shortJump (displacement : Int) : List UInt8 := [0xEB, UInt8.ofNat (displacement % 256).toNat]

/-- A diversion of one function, switched on or off. -/
structure Jumper where
  target : Nat
  /-- Where the function's own behaviour is entered. -/
  entry : Nat
  /-- The bytes in front of the function that hold the stub. -/
  padding : Range
  /-- What the padding held. -/
  filler : UInt8
  /-- The first bytes of the function from before it was diverted. -/
  saved : List UInt8
  active : Bool
  deriving DecidableEq

/-- What is left of a jumper whose bytes stay as they are. -/
structure DetachedJumper where
  target : Nat
  entry : Nat
  wasActive : Bool
  deriving DecidableEq

/-- How the start of a function is dealt with. -/
inductive Leading where
  /-- So many bytes do nothing. -/
  | idle (length : Nat)
  /-- An instruction of that length is copied. -/
  | copied (length : Nat)
  deriving DecidableEq

namespace Leading

/-- How the bytes at the start of a function at `address` are dealt with. -/
def ofBytes (head : List UInt8) (address : Nat) (d : Decoder := .ofMode .bits64) :
    Except JumperFault Leading :=
  match d.paddingLength? head .bits64 with
  | some n => .ok (.idle n)
  | none =>
    match d.first head address with
    | none => .error (.shortLeading address)
    | some i =>
      if i.relocation ≠ .free then .error (.relativeLeading address)
      else if i.length < shortJumpSize then .error (.shortLeading address)
      else .ok (.copied i.length)

/-- Bytes of the stub in front of the function. -/
def stubSize : Leading → Nat
  | idle _ => longJumpSize
  | copied n => longJumpSize + n + shortJumpSize

/-- Where the function's own behaviour is entered. -/
def entry (address : Nat) : Leading → Nat
  | idle n => address + n
  | copied n => address - n - shortJumpSize

/-- The stub that leads to `divertTo`. -/
def stub (head : List UInt8) (divertTo : Nat) : Leading → List UInt8
  | idle _ => longJump divertTo
  | copied n => longJump divertTo ++ head.take n ++ shortJump n

end Leading

/-- The byte that all bytes are equal to. -/
def uniform? : List UInt8 → Option UInt8
  | [] => none
  | b :: rest => if rest.all (· = b) then some b else none

namespace Jumper

/-- Puts a stub in front of the function at `target`; the function itself is not changed. -/
def install (s : Space) (target divertTo : Nat) (d : Decoder := .ofMode .bits64) :
    Except JumperFault (Jumper × Space) := do
  let head := s.read target Instruction.maxLength
  let leading ← Leading.ofBytes head target d
  let padding : Range := ⟨target - leading.stubSize, target⟩
  match uniform? (s.read padding.start leading.stubSize) with
  | none => .error (.usedPadding target)
  | some filler =>
    .ok ({ target, entry := leading.entry target, padding, filler, saved := [], active := false },
      s.write padding.start (leading.stub head divertTo))

/-- The short jump from the function to its stub. -/
def diversion (j : Jumper) : List UInt8 :=
  shortJump ((j.padding.start : Int) - (j.target + shortJumpSize))

/-- Diverts the function; says whether that changed anything. -/
def activate (j : Jumper) (s : Space) : Bool × Jumper × Space :=
  if j.active then (false, j, s)
  else
    (true, { j with saved := s.read j.target shortJumpSize, active := true },
      s.write j.target j.diversion)

/-- Gives the function its first bytes back; says whether that changed anything. -/
def revert (j : Jumper) (s : Space) : Bool × Jumper × Space :=
  if j.active then (true, { j with active := false }, s.write j.target j.saved)
  else (false, j, s)

/-- Ends the diversion and refills the padding. -/
def remove (j : Jumper) (s : Space) : Space := (j.revert s).2.2.fill j.padding j.filler

/-- Gives the bytes up as they are. -/
def detach (j : Jumper) : DetachedJumper := ⟨j.target, j.entry, j.active⟩

end Jumper

end CallProfiler.Code
