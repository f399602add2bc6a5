import CallProfiler.Text.Blank
import CallProfiler.Text.Hex
import CallProfiler.Text.Quoted

/-!
# Addresses typed by hand

An address is a hexadecimal number, with or without `0x` in front, in which underscores may separate
digits.
-/

namespace CallProfiler.Text

/-- Why a text is no address. -/
inductive AddressFault where
  | noDigits (text : String)
  | badNumber (text : String) (fault : NumberFault)
  deriving DecidableEq

def AddressFault.message : AddressFault → String
  | noDigits text => s!"invalid address: {quoted text}"
  | badNumber text fault => s!"invalid address {quoted text}: {fault.message}"

/-- Drops one mark for hexadecimal numbers. -/
def dropHexMark : List Char → List Char
  | '0' :: 'x' :: rest => rest
  | '0' :: 'X' :: rest => rest
  | s => s

/-- Reads an address. -/
def parseAddress (text : String) : Except AddressFault Nat :=
  match (dropHexMark (trim text.toList)).filter (· ≠ '_') with
  | [] => .error (.noDigits text)
  | digits => (readHex digits).mapError (.badNumber text)

end CallProfiler.Text
