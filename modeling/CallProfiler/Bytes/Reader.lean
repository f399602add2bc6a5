import CallProfiler.Bytes.Number

/-!
# Reading bytes from the front

A reader takes bytes from the front of a list and leaves the rest; it fails where the bytes end too
early or spell nothing.  Beside numbers of a fixed width there are grouped numbers, which have seven
bits to a byte, the lowest first, and mark every byte but the last.
-/

namespace CallProfiler.Bytes

/-- What takes bytes from the front of a list. -/
abbrev Reader := StateT (List UInt8) Option

namespace Reader

/-- Takes a number of bytes. -/
def bytes (count : Nat) : Reader (List UInt8) := fun s =>
  if count ≤ s.length then some (s.take count, s.drop count) else none

/-- A number of a fixed width. -/
def number (width : Nat) : Reader Nat := return littleEndian (← bytes width)

/-- The bytes up to a zero, which is taken too. -/
def terminated : Reader (List UInt8) := fun s =>
  match s.span (· ≠ 0) with
  | (_, []) => none
  | (text, _ :: rest) => some (text, rest)

/-- A grouped number of at most `fuel` bytes. -/
def groups : Nat → List UInt8 → Option (Nat × List UInt8)
  | 0, _ => none
  | _, [] => none
  | fuel + 1, b :: rest =>
    if b < 128 then some (b.toNat, rest)
    else (groups fuel rest).map fun (n, rest) => (b.toNat - 128 + 128 * n, rest)

/-- A signed grouped number of at most `fuel` bytes; its sign is the high bit of the last group. -/
def signedGroups : Nat → List UInt8 → Option (Int × List UInt8)
  | 0, _ => none
  | _, [] => none
  | fuel + 1, b :: rest =>
    if b < 128 then some (Int.bmod b.toNat 128, rest)
    else (signedGroups fuel rest).map fun (n, rest) => ((b.toNat - 128 : Nat) + 128 * n, rest)

/-- A grouped number of at most 64 bits. -/
def grouped : Reader Nat := fun s => (groups 10 s).filter (·.1 < 2 ^ 64)

/-- A signed grouped number of at most 64 bits. -/
def signedGrouped : Reader Int := fun s =>
  (signedGroups 10 s).filter fun (n, _) => -2 ^ 63 ≤ n ∧ n < 2 ^ 63

/-- What is read, if it has a property. -/
def check {α : Type} (r : Reader α) (p : α → Bool) : Reader α := do
  let a ← r
  if p a then return a else failure

/-- Runs a reader on bytes of its own that are taken from the front. -/
def within {α : Type} (own : Reader (List UInt8)) (r : Reader α) : Reader α := do
  let (a, _) ← r.run (← own)
  return a

/-- Reads one thing after another until no bytes are left, at most `fuel` of them, onto those read
before. -/
def readOnto {α : Type} (r : Reader α) : Nat → List α → List UInt8 → Option (List α)
  | _, read, [] => some read.reverse
  | 0, _, _ => none
  | fuel + 1, read, s =>
    match r s with
    | none => none
    | some (a, s) => readOnto r fuel (a :: read) s

/-- Reads all bytes as one thing after another; each of them takes at least one byte. -/
def all? {α : Type} (r : Reader α) (s : List UInt8) : Option (List α) := readOnto r s.length [] s

/-- Reads one thing after another until the reader gives none, at most `fuel` of them. -/
def untilNone {α : Type} (r : Reader (Option α)) : Nat → Reader (List α)
  | 0 => failure
  | fuel + 1 => do
    match ← r with
    | none => return []
    | some a => return a :: (← untilNone r fuel)

/-- Reads one thing after another up to the mark of the end, for which the reader gives none. -/
def series {α : Type} (r : Reader (Option α)) : Reader (List α) := do
  untilNone r ((← get).length + 1)

end Reader

end CallProfiler.Bytes
