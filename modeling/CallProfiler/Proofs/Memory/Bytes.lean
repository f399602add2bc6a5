import CallProfiler.Memory.Space

/-!
# What stores do to the bytes of memory

A store changes the bytes it covers and no other, and storing what was read from another memory makes
the two agree there.

**Main statements.**
* `bytes_write_outside`, `bytes_fill_outside`: nothing else changes.
* `bytes_write_read`: stored back, bytes are as they were.
-/

namespace CallProfiler.Memory

namespace Range

theorem contains_eq_false_iff
    {r : Range} {a : Nat} :
    r.contains a = false ↔ ¬(r.start ≤ a ∧ a < r.finish) := by
  rw [← contains_iff, Bool.not_eq_true]

theorem contains_ofLength_iff
    {start length a : Nat} :
    (ofLength start length).contains a = true ↔ start ≤ a ∧ a < start + length := by
  rw [contains_iff]
  rfl

end Range

namespace Space

variable (s : Space) {a x : Nat} {data : List UInt8}

theorem bytes_write :
    (s.write a data).bytes x =
      if a ≤ x then (data[x - a]?).getD (s.bytes x) else s.bytes x := by
  simp [write]

theorem bytes_write_outside
    (outside : x < a ∨ a + data.length ≤ x) :
    (s.write a data).bytes x = s.bytes x := by
  rw [bytes_write]
  split
  · rw [List.getElem?_eq_none (by omega)]
    rfl
  · rfl

theorem bytes_write_inside
    {b : UInt8}
    (above : a ≤ x)
    (here : data[x - a]? = some b) :
    (s.write a data).bytes x = b := by
  rw [bytes_write, if_pos above, here]
  rfl

@[simp] theorem length_read
    (count : Nat) :
    (s.read a count).length = count := by
  simp [read]

theorem getElem?_read
    {count i : Nat}
    (h : i < count) :
    (s.read a count)[i]? = some (s.bytes (a + i)) := by
  simp [read, h]

theorem bytes_write_read
    (before : Space) {count : Nat}
    (inside : (Range.ofLength a count).contains x = true) :
    (s.write a (before.read a count)).bytes x = before.bytes x := by
  rw [Range.contains_ofLength_iff] at inside
  obtain ⟨above, below⟩ := inside
  have hread := before.getElem?_read (a := a) (show x - a < count by omega)
  rw [show a + (x - a) = x by omega] at hread
  exact s.bytes_write_inside above hread

/-- Reading depends on the bytes read only. -/
theorem read_congr
    {t : Space} {count : Nat}
    (same : ∀ y, (Range.ofLength a count).contains y = true → s.bytes y = t.bytes y) :
    s.read a count = t.read a count := by
  unfold read
  refine List.map_congr_left fun i hi => ?_
  refine same (a + i) ?_
  have hi := List.mem_range.mp hi
  rw [Range.contains_ofLength_iff]
  omega

theorem bytes_fill_inside
    {r : Range} {b : UInt8}
    (inside : r.contains x = true) :
    (s.fill r b).bytes x = b := by
  simp only [fill, inside, if_true]

theorem bytes_fill_outside
    {r : Range} {b : UInt8}
    (outside : r.contains x = false) :
    (s.fill r b).bytes x = s.bytes x := by
  simp only [fill, outside, Bool.false_eq_true, if_false]

@[simp] theorem regions_fill
    (r : Range) (b : UInt8) :
    (s.fill r b).regions = s.regions :=
  rfl

end Space

end CallProfiler.Memory
