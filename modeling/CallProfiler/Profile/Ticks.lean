import CallProfiler.Instances

/-!
# Numbers of ticks

Times are numbers of ticks with a sign, held in 64 bits.  A sum that leaves these bounds wraps around.
As only the remainder by `2 ^ 64` is lost, a sum of sums is the sum of everything, wrapped around once.
-/

namespace CallProfiler.Profile

/-- What 64 bits hold of a number of ticks. -/
def wrap (x : Int) : Int := (x + 2 ^ 63) % 2 ^ 64 - 2 ^ 63

/-- The number of ticks is one that 64 bits can hold. -/
def Fits (x : Int) : Prop := -2 ^ 63 ≤ x ∧ x < 2 ^ 63

instance (x : Int) : Decidable (Fits x) := inferInstanceAs (Decidable (_ ∧ _))

variable {x y : Int}

theorem fits_wrap
    (x : Int) :
    Fits (wrap x) := by
  unfold Fits wrap
  omega

/-- A number within the bounds is held as it is. -/
theorem wrap_of_fits
    (h : Fits x) :
    wrap x = x := by
  unfold Fits at h
  unfold wrap
  omega

/-- **What is lost** is a multiple of `2 ^ 64`. -/
theorem wrap_eq_wrap_iff :
    wrap x = wrap y ↔ (2 : Int) ^ 64 ∣ x - y := by
  unfold wrap
  omega

theorem dvd_wrap_sub
    (x : Int) :
    (2 : Int) ^ 64 ∣ wrap x - x := by
  unfold wrap
  omega

@[simp] theorem wrap_wrap
    (x : Int) :
    wrap (wrap x) = wrap x :=
  wrap_of_fits (fits_wrap x)

@[simp] theorem wrap_wrap_add
    (x y : Int) :
    wrap (wrap x + y) = wrap (x + y) := by
  unfold wrap
  omega

@[simp] theorem wrap_add_wrap
    (x y : Int) :
    wrap (x + wrap y) = wrap (x + y) := by
  unfold wrap
  omega

@[simp] theorem wrap_wrap_sub
    (x y : Int) :
    wrap (wrap x - y) = wrap (x - y) := by
  unfold wrap
  omega

@[simp] theorem wrap_sub_wrap
    (x y : Int) :
    wrap (x - wrap y) = wrap (x - y) := by
  unfold wrap
  omega

end CallProfiler.Profile
