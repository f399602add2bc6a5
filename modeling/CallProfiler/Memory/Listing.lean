import CallProfiler.Memory.Range
import CallProfiler.Memory.Protection
import CallProfiler.Text.Blank
import CallProfiler.Text.Hex

/-!
# Listings of mapped memory

A listing has one line per mapping: `start-end perms offset dev inode [pathname]`, addresses in
hexadecimal.  `parseListing` reads the mappings and passes over lines of any other form.
-/

namespace CallProfiler.Memory

/-- One mapping of a listing. -/
structure ListingEntry where
  range : Range
  protection : Protection
  path : Option String
  deriving DecidableEq

/-- The rights that the first three bytes of the permission column grant. -/
def listedProtection (column : List Char) : Protection :=
  let bytes := column.flatMap String.utf8EncodeChar
  ⟨bytes[0]? = some 114, bytes[1]? = some 119, bytes[2]? = some 120⟩

/-- The mapping that a line lists, if it has the form of one. -/
def parseListingLine (line : List Char) : Option ListingEntry :=
  match Text.words line with
  | addresses :: permissions :: more =>
    match Text.cutAt '-' addresses with
    | none => none
    | some (start, finish) =>
      match Text.readHex start, Text.readHex finish with
      | .ok start, .ok finish =>
        some ⟨⟨start, finish⟩, listedProtection permissions, more[3]?.map String.ofList⟩
      | _, _ => none
  | _ => none

/-- The mappings of a listing, in order. -/
def parseListing (text : String) : List ListingEntry :=
  (Text.lines text.toList).filterMap parseListingLine

end CallProfiler.Memory
