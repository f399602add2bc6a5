import CallProfiler.Memory.Gap
import Mathlib.Order.Bounds.Basic

/-!
# The gap that is found is the nearest one

Memory is scanned from a location over the occupied ranges in their order, or against it.  A place is free
if no range has an address in it.  Each step of the scan leaves out places that are not free and no others,
so what the scan ends with is the nearest place of all, and it ends with nothing only if there is none.

**Main statements.**
* `placesAbove_cons_of_finish_le`, `placesAbove_cons_of_blocks`: what a step upwards leaves out.
* `placesBelow_cons_of_le_start`, `placesBelow_cons_of_blocks`: what a step downwards leaves out.
* `scanUp_finds`, `scanDown_finds`: the scan ends with the least, or greatest, place that is left.
* `gapAbove?_isLeast`, `gapBelow?_isGreatest`: the searches.
-/

namespace CallProfiler.Memory

/-- No range has an address among the `size` addresses from `a` on. -/
def IsFree (occupied : List Range) (size a : Nat) : Prop :=
  ∀ r ∈ occupied, r.meets (.ofLength a size) = false

theorem Range.meets_ofLength_eq_false_iff
    {r : Range} {size a : Nat} :
    r.meets (.ofLength a size) = false ↔ min r.finish (a + size) ≤ max r.start a := by
  rw [← Nat.not_lt, meets, decide_eq_false_iff_not]
  rfl

theorem isFree_cons
    {r : Range} {rest : List Range} {size a : Nat} :
    IsFree (r :: rest) size a ↔ min r.finish (a + size) ≤ max r.start a ∧ IsFree rest size a := by
  simp [IsFree, Range.meets_ofLength_eq_false_iff]

/-! ## Upwards -/

/-- The free places from a location on, with no end above the highest address. -/
def placesAbove (occupied : List Range) (size location : Nat) : Set Nat :=
  {a | location ≤ a ∧ a + size < addressLimit ∧ IsFree occupied size a}

/-- An answer is the least place, or there is no place and no answer. -/
def FindsLeast (places : Set Nat) : Option Nat → Prop
  | some a => IsLeast places a
  | none => ∀ a, a ∉ places

section Upwards

variable {r : Range} {rest occupied : List Range} {size candidate : Nat}

theorem mem_placesAbove
    {a : Nat} :
    a ∈ placesAbove occupied size candidate ↔
      candidate ≤ a ∧ a + size < addressLimit ∧ IsFree occupied size a :=
  Iff.rfl

/-- A range below all places that are left is in the way of none. -/
theorem placesAbove_cons_of_finish_le
    (h : r.finish ≤ candidate) :
    placesAbove (r :: rest) size candidate = placesAbove rest size candidate := by
  ext a
  rw [mem_placesAbove, mem_placesAbove, isFree_cons]
  constructor
  · rintro ⟨hcandidate, hlimit, -, hfree⟩
    exact ⟨hcandidate, hlimit, hfree⟩
  · rintro ⟨hcandidate, hlimit, hfree⟩
    exact ⟨hcandidate, hlimit, by omega, hfree⟩

/-- A range in the way of the first place that is left is in the way of all up to its end. -/
theorem placesAbove_cons_of_blocks
    (hr : r.isEmpty = false)
    (hsize : 0 < size)
    (hstart : r.start < candidate + size)
    (hfinish : candidate < r.finish) :
    placesAbove (r :: rest) size candidate = placesAbove rest size r.finish := by
  have hr' : r.start < r.finish := by
    simpa [Range.isEmpty] using hr
  ext a
  rw [mem_placesAbove, mem_placesAbove, isFree_cons]
  constructor
  · rintro ⟨hcandidate, hlimit, hapart, hfree⟩
    exact ⟨by omega, hlimit, hfree⟩
  · rintro ⟨hpast, hlimit, hfree⟩
    exact ⟨by omega, hlimit, by omega, hfree⟩

/-- The first place that is left is the least if it is free. -/
theorem isLeast_placesAbove
    (hlimit : candidate + size < addressLimit)
    (hfree : IsFree occupied size candidate) :
    IsLeast (placesAbove occupied size candidate) candidate :=
  ⟨⟨Nat.le_refl _, hlimit, hfree⟩, fun _ ha => ha.1⟩

/-- No place is left when the first one would end above the highest address. -/
theorem notMem_placesAbove
    (h : addressLimit ≤ candidate + size)
    (a : Nat) :
    a ∉ placesAbove occupied size candidate := by
  rintro ⟨hcandidate, hlimit, -⟩
  omega

/-- A place before the first range is before all ranges. -/
theorem isFree_of_le_start
    (hsorted : (r :: rest).Pairwise fun r s => r.start ≤ s.start)
    (h : candidate + size ≤ r.start) :
    IsFree (r :: rest) size candidate := by
  intro s hs
  have hstart : r.start ≤ s.start := by
    rcases List.mem_cons.1 hs with rfl | hs
    · exact Nat.le_refl _
    · exact (List.pairwise_cons.1 hsorted).1 s hs
  rw [Range.meets_ofLength_eq_false_iff]
  omega

/-- **The scan upwards** ends with the least place that is left, or with nothing if none is. -/
theorem scanUp_finds
    (hsize : 0 < size)
    (hnonempty : ∀ r ∈ occupied, r.isEmpty = false)
    (hsorted : occupied.Pairwise fun r s => r.start ≤ s.start)
    (candidate : Nat) :
    FindsLeast (placesAbove occupied size candidate) (scanUp size candidate occupied) := by
  induction occupied generalizing candidate with
  | nil =>
      rw [scanUp]
      split
      next hlimit =>
        exact isLeast_placesAbove hlimit fun _ hr => absurd hr List.not_mem_nil
      next hlimit =>
        exact notMem_placesAbove (Nat.le_of_not_lt hlimit)
  | cons r rest ih =>
      have hr := hnonempty r List.mem_cons_self
      have hrest := ih (fun s hs => hnonempty s (List.mem_cons_of_mem _ hs)) hsorted.of_cons
      rw [scanUp]
      split
      next hbelow =>
        rw [placesAbove_cons_of_finish_le hbelow]
        exact hrest candidate
      next habove =>
        split
        next hlimit =>
          exact notMem_placesAbove hlimit
        next hlimit =>
          split
          next hfits =>
            exact isLeast_placesAbove (Nat.lt_of_not_le hlimit) (isFree_of_le_start hsorted hfits)
          next hblocks =>
            rw [placesAbove_cons_of_blocks hr hsize (Nat.lt_of_not_le hblocks) (Nat.lt_of_not_le habove)]
            exact hrest r.finish

end Upwards

/-- What gives the best place if there is any, and nothing only if there is none, gives nothing else. -/
theorem answer_iff
    {places : Set Nat} {IsBest : Nat → Prop} {answer : Option Nat}
    (hmem : ∀ a, IsBest a → a ∈ places)
    (hunique : ∀ a b, IsBest a → IsBest b → a = b)
    (hsome : ∀ a, answer = some a → IsBest a)
    (hnone : answer = none → ∀ a, a ∉ places) :
    (∀ a, answer = some a ↔ IsBest a) ∧ (answer = none ↔ ¬∃ a, a ∈ places) := by
  cases answer with
  | none =>
      have hempty := hnone rfl
      refine ⟨fun a => ⟨hsome a, fun hbest => absurd (hmem a hbest) (hempty a)⟩, ?_⟩
      simpa using hempty
  | some found =>
      have hfound := hsome found rfl
      refine ⟨fun a => ⟨hsome a, fun hbest => congrArg some (hunique found a hfound hbest)⟩, ?_⟩
      simpa using ⟨found, hmem found hfound⟩

/-- What finds the least place gives it if there is one, and nothing if there is none. -/
theorem FindsLeast.iff
    {places : Set Nat} {answer : Option Nat}
    (h : FindsLeast places answer) :
    (∀ a, answer = some a ↔ IsLeast places a) ∧ (answer = none ↔ ¬∃ a, a ∈ places) := by
  refine answer_iff (fun a hleast => hleast.1) (fun a b ha hb => ha.unique hb) ?_ ?_
  · rintro a rfl
    exact h
  · rintro rfl
    exact h

/-- **The search upwards.**  Over non-empty ranges sorted by their starts, which need not be disjoint, the
gap above a location is the least address from there on at which `size` bytes end below the limit of
addresses and no range is met; there is no answer exactly if there is no such address. -/
theorem gapAbove?_isLeast
    {occupied : List Range} {size : Nat}
    (hsize : 0 < size)
    (hnonempty : ∀ r ∈ occupied, r.isEmpty = false)
    (hsorted : occupied.Pairwise fun r s => r.start ≤ s.start)
    (location : Nat) :
    (∀ a, gapAbove? location occupied size = some a ↔
      IsLeast {a | location ≤ a ∧ a + size < 2 ^ 64 ∧ IsFree occupied size a} a) ∧
    (gapAbove? location occupied size = none ↔
      ¬∃ a, location ≤ a ∧ a + size < 2 ^ 64 ∧ IsFree occupied size a) :=
  (scanUp_finds hsize hnonempty hsorted location).iff

/-- Two touching ranges around the location, and a gap that is too small, are passed over. -/
theorem gapAbove?_isLeast_past_small_gap :
    let occupied : List Range := [⟨0x1000, 0x3000⟩, ⟨0x3000, 0x5000⟩, ⟨0x6000, 0x7000⟩, ⟨0x9000, 0xa000⟩]
    0 < 0x1800 ∧ (∀ r ∈ occupied, r.isEmpty = false) ∧
      occupied.Pairwise (fun r s => r.start ≤ s.start) ∧
      IsLeast {a | 0x2000 ≤ a ∧ a + 0x1800 < 2 ^ 64 ∧ IsFree occupied 0x1800 a} 0x7000 := by
  intro occupied
  have hsize : 0 < 0x1800 := by decide
  have hnonempty : ∀ r ∈ occupied, r.isEmpty = false := by decide
  have hsorted : occupied.Pairwise fun r s => r.start ≤ s.start := by decide
  exact ⟨hsize, hnonempty, hsorted,
    ((gapAbove?_isLeast hsize hnonempty hsorted 0x2000).1 0x7000).1 (by decide)⟩

/-! ## Downwards -/

/-- The free places up to a candidate. -/
def placesBelow (occupied : List Range) (size candidate : Nat) : Set Nat :=
  {a | a ≤ candidate ∧ IsFree occupied size a}

/-- An answer is the greatest place, or there is no place and no answer. -/
def FindsGreatest (places : Set Nat) : Option Nat → Prop
  | some a => IsGreatest places a
  | none => ∀ a, a ∉ places

/-- What finds the greatest place gives it if there is one, and nothing if there is none. -/
theorem FindsGreatest.iff
    {places : Set Nat} {answer : Option Nat}
    (h : FindsGreatest places answer) :
    (∀ a, answer = some a ↔ IsGreatest places a) ∧ (answer = none ↔ ¬∃ a, a ∈ places) := by
  refine answer_iff (fun a hgreatest => hgreatest.1) (fun a b ha hb => ha.unique hb) ?_ ?_
  · rintro a rfl
    exact h
  · rintro rfl
    exact h

section Downwards

variable {r : Range} {rest occupied : List Range} {size candidate : Nat}

theorem mem_placesBelow
    {a : Nat} :
    a ∈ placesBelow occupied size candidate ↔ a ≤ candidate ∧ IsFree occupied size a :=
  Iff.rfl

/-- A range above all places that are left is in the way of none. -/
theorem placesBelow_cons_of_le_start
    (h : candidate + size ≤ r.start) :
    placesBelow (r :: rest) size candidate = placesBelow rest size candidate := by
  ext a
  rw [mem_placesBelow, mem_placesBelow, isFree_cons]
  constructor
  · rintro ⟨hcandidate, -, hfree⟩
    exact ⟨hcandidate, hfree⟩
  · rintro ⟨hcandidate, hfree⟩
    exact ⟨hcandidate, by omega, hfree⟩

/-- A range in the way of the last place that is left is in the way of all that end behind its start. -/
theorem mem_placesBelow_cons_of_blocks
    (hr : r.isEmpty = false)
    (hsize : 0 < size)
    (hstart : r.start < candidate + size)
    (hfinish : candidate < r.finish)
    {a : Nat} :
    a ∈ placesBelow (r :: rest) size candidate ↔ a + size ≤ r.start ∧ IsFree rest size a := by
  have hr' : r.start < r.finish := by
    simpa [Range.isEmpty] using hr
  rw [mem_placesBelow, isFree_cons]
  constructor
  · rintro ⟨hcandidate, hapart, hfree⟩
    exact ⟨by omega, hfree⟩
  · rintro ⟨hbefore, hfree⟩
    exact ⟨by omega, by omega, hfree⟩

theorem placesBelow_cons_of_blocks
    (hr : r.isEmpty = false)
    (hsize : 0 < size)
    (hstart : r.start < candidate + size)
    (hfinish : candidate < r.finish)
    (hroom : size ≤ r.start) :
    placesBelow (r :: rest) size candidate = placesBelow rest size (r.start - size) := by
  ext a
  rw [mem_placesBelow_cons_of_blocks hr hsize hstart hfinish, mem_placesBelow]
  constructor
  · rintro ⟨hbefore, hfree⟩
    exact ⟨by omega, hfree⟩
  · rintro ⟨hcandidate, hfree⟩
    exact ⟨by omega, hfree⟩

/-- A place behind the first of the ranges, which come from the top, is behind all of them. -/
theorem isFree_of_finish_le
    (hdescending : (r :: rest).Pairwise fun r s => s.finish ≤ r.start)
    (hr : r.isEmpty = false)
    (h : r.finish ≤ candidate) :
    IsFree (r :: rest) size candidate := by
  have hr' : r.start < r.finish := by
    simpa [Range.isEmpty] using hr
  intro s hs
  have hfinish : s.finish ≤ candidate := by
    rcases List.mem_cons.1 hs with rfl | hs
    · exact h
    · have hbelow := (List.pairwise_cons.1 hdescending).1 s hs
      omega
  rw [Range.meets_ofLength_eq_false_iff]
  omega

/-- **The scan downwards** ends with the greatest place that is left, or with nothing if none is. -/
theorem scanDown_finds
    (hsize : 0 < size)
    (hnonempty : ∀ r ∈ occupied, r.isEmpty = false)
    (hdescending : occupied.Pairwise fun r s => s.finish ≤ r.start)
    (candidate : Nat) :
    FindsGreatest (placesBelow occupied size candidate) (scanDown size candidate occupied) := by
  induction occupied generalizing candidate with
  | nil =>
      exact ⟨⟨Nat.le_refl _, fun _ hr => absurd hr List.not_mem_nil⟩, fun _ ha => ha.1⟩
  | cons r rest ih =>
      have hr := hnonempty r List.mem_cons_self
      have hrest := ih (fun s hs => hnonempty s (List.mem_cons_of_mem _ hs)) hdescending.of_cons
      rw [scanDown]
      split
      next habove =>
        rw [placesBelow_cons_of_le_start habove]
        exact hrest candidate
      next hreaches =>
        split
        next hbelow =>
          exact ⟨⟨Nat.le_refl _, isFree_of_finish_le hdescending hr hbelow⟩, fun _ ha => ha.1⟩
        next hblocks =>
          have hstart := Nat.lt_of_not_le hreaches
          have hfinish := Nat.lt_of_not_le hblocks
          split
          next hroom =>
            rw [placesBelow_cons_of_blocks hr hsize hstart hfinish hroom]
            exact hrest (r.start - size)
          next hroom =>
            intro a ha
            have hbefore := ((mem_placesBelow_cons_of_blocks hr hsize hstart hfinish).1 ha).1
            omega

/-- Sorted by their starts and disjoint, ranges have their ends in order too. -/
theorem descending_reverse
    (hnonempty : ∀ r ∈ occupied, r.isEmpty = false)
    (hsorted : occupied.Pairwise fun r s => r.start ≤ s.start)
    (hdisjoint : occupied.Pairwise fun r s => r.meets s = false) :
    occupied.reverse.Pairwise fun r s => s.finish ≤ r.start := by
  rw [List.pairwise_reverse]
  refine (hsorted.and hdisjoint).imp_of_mem ?_
  rintro r s - hs ⟨hstart, hapart⟩
  have hs' : s.start < s.finish := by
    simpa [Range.isEmpty] using hnonempty s hs
  simp only [Range.meets, decide_eq_false_iff_not] at hapart
  omega

end Downwards

/-! ## Sums of addresses -/

/-- A sum that is an address. -/
def sum? (a b : Nat) : Option Nat := if a + b < addressLimit then some (a + b) else none

/-- The scan downwards with every sum checked; it breaks off where one is no address. -/
def scanDownChecked (size candidate : Nat) : List Range → Option (Option Nat)
  | [] => some (some candidate)
  | r :: rest => do
    let finish ← sum? candidate size
    if finish ≤ r.start then scanDownChecked size candidate rest
    else if r.finish ≤ candidate then some (some candidate)
    else if size ≤ r.start then scanDownChecked size (r.start - size) rest
    else some none

/-- The search downwards with every sum checked. -/
def gapBelowChecked? (location : Nat) (occupied : List Range) (size : Nat) : Option (Option Nat) :=
  if size ≤ location then scanDownChecked size (location - size) occupied.reverse else some none

/-- As the candidate only ever moves down, its end is an address from first to last. -/
theorem scanDownChecked_eq
    {size candidate : Nat}
    (h : candidate + size < addressLimit)
    (occupied : List Range) :
    scanDownChecked size candidate occupied = some (scanDown size candidate occupied) := by
  induction occupied generalizing candidate with
  | nil =>
      rfl
  | cons r rest ih =>
      have hsum : sum? candidate size = some (candidate + size) := if_pos h
      rw [scanDownChecked, scanDown, hsum, Option.bind_eq_bind, Option.bind_some]
      split
      · exact ih h
      next hreaches =>
        split
        · rfl
        · split
          next hroom =>
            refine ih ?_
            omega
          next => rfl

theorem gapBelowChecked?_eq
    {location : Nat}
    (h : location < addressLimit)
    (occupied : List Range) (size : Nat) :
    gapBelowChecked? location occupied size = some (gapBelow? location occupied size) := by
  rw [gapBelowChecked?, gapBelow?]
  split
  · refine scanDownChecked_eq ?_ _
    omega
  · rfl

/-- **The search downwards.**  Over non-empty, disjoint ranges sorted by their starts, the gap below a
location is the greatest address at which `size` bytes end there at the latest and no range is met; there
is no answer exactly if there is no such address.  No sum on the way exceeds the highest address. -/
theorem gapBelow?_isGreatest
    {location size : Nat} {occupied : List Range}
    (hlocation : location < 2 ^ 64)
    (hsize : 0 < size)
    (hnonempty : ∀ r ∈ occupied, r.isEmpty = false)
    (hsorted : occupied.Pairwise fun r s => r.start ≤ s.start)
    (hdisjoint : occupied.Pairwise fun r s => r.meets s = false) :
    (∀ a, gapBelow? location occupied size = some a ↔
      IsGreatest {a | a + size ≤ location ∧ IsFree occupied size a} a) ∧
    (gapBelow? location occupied size = none ↔
      ¬∃ a, a + size ≤ location ∧ IsFree occupied size a) ∧
    gapBelowChecked? location occupied size = some (gapBelow? location occupied size) := by
  rw [← and_assoc]
  refine ⟨FindsGreatest.iff ?_, gapBelowChecked?_eq hlocation occupied size⟩
  rw [gapBelow?]
  split
  next hroom =>
    have hplaces : {a | a + size ≤ location ∧ IsFree occupied size a} =
        placesBelow occupied.reverse size (location - size) := by
      ext a
      simp only [Set.mem_ofPred_eq, mem_placesBelow, IsFree, List.mem_reverse,
        Nat.le_sub_iff_add_le hroom]
    rw [hplaces]
    refine scanDown_finds hsize ?_ (descending_reverse hnonempty hsorted hdisjoint) _
    exact fun r hr => hnonempty r (List.mem_reverse.1 hr)
  next hroom =>
    rintro a ⟨hbefore, -⟩
    omega

/-- A range around the location and a gap that is too small are passed over. -/
theorem gapBelow?_isGreatest_past_small_gap :
    let occupied : List Range := [⟨0x10000, 0x11000⟩, ⟨0x11800, 0x12000⟩, ⟨0x12000, 0x14000⟩]
    0x13000 < 2 ^ 64 ∧ 0 < 0x1000 ∧ (∀ r ∈ occupied, r.isEmpty = false) ∧
      occupied.Pairwise (fun r s => r.start ≤ s.start) ∧
      occupied.Pairwise (fun r s => r.meets s = false) ∧
      IsGreatest {a | a + 0x1000 ≤ 0x13000 ∧ IsFree occupied 0x1000 a} 0xF000 := by
  intro occupied
  have hlocation : 0x13000 < 2 ^ 64 := by decide
  have hsize : 0 < 0x1000 := by decide
  have hnonempty : ∀ r ∈ occupied, r.isEmpty = false := by decide
  have hsorted : occupied.Pairwise fun r s => r.start ≤ s.start := by decide
  have hdisjoint : occupied.Pairwise fun r s => r.meets s = false := by decide
  refine ⟨hlocation, hsize, hnonempty, hsorted, hdisjoint, ?_⟩
  exact ((gapBelow?_isGreatest hlocation hsize hnonempty hsorted hdisjoint).1 0xF000).1 (by decide)

/-- Ranges that overlap can hide one another: the scan ends at the inner one. -/
example : gapBelow? 50 [⟨0, 100⟩, ⟨10, 20⟩] 5 = some 45 := by
  decide

end CallProfiler.Memory
