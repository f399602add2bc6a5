import CallProfiler.Instances

/-!
# Address ranges

Half-open ranges of addresses and whole-page ranges.  Addresses are natural numbers below `2 ^ 64`.
-/

namespace CallProfiler.Memory

/-- One more than the largest address. -/
def addressLimit : Nat := 2 ^ 64

/-- The addresses from `start` up to, but not including, `finish`. -/
structure Range where
  start : Nat
  finish : Nat
  deriving DecidableEq

namespace Range

/-- The range of `length` addresses from `start` on. -/
def ofLength (start length : Nat) : Range := ⟨start, start + length⟩

def length (r : Range) : Nat := r.finish - r.start

def isEmpty (r : Range) : Bool := r.finish ≤ r.start

def contains (r : Range) (a : Nat) : Bool := r.start ≤ a && a < r.finish

/-- The two ranges have an address in common. -/
def meets (r s : Range) : Bool := max r.start s.start < min r.finish s.finish

/-- The smallest range that covers both. -/
def join (r s : Range) : Range := ⟨min r.start s.start, max r.finish s.finish⟩

/-- The smallest range that covers all ranges of a list. -/
def span : List Range → Option Range
  | [] => none
  | r :: rest => some (rest.foldl join r)

theorem contains_iff {r : Range} {a : Nat} : r.contains a = true ↔ r.start ≤ a ∧ a < r.finish := by
  simp [contains]

theorem meets_iff {r s : Range} :
    r.meets s = true ↔ ∃ a, r.contains a = true ∧ s.contains a = true := by
  simp only [meets, contains, decide_eq_true_eq, Bool.and_eq_true]
  constructor
  · intro h
    exact ⟨max r.start s.start, ⟨by omega, by omega⟩, ⟨by omega, by omega⟩⟩
  · rintro ⟨a, ⟨h1, h2⟩, h3, h4⟩
    omega

end Range

/-- Bytes in a page. -/
def pageSize : Nat := 4096

/-- The largest page boundary that is not above `a`. -/
def pageDown (a : Nat) : Nat := a / pageSize * pageSize

/-- The smallest page boundary that is not below `a`. -/
def pageUp (a : Nat) : Nat := (a + (pageSize - 1)) / pageSize * pageSize

/-- The whole pages that a range touches. -/
def Range.pages (r : Range) : Range := ⟨pageDown r.start, pageUp r.finish⟩

end CallProfiler.Memory
