import CallProfiler.Json.Printer
import CallProfiler.Json.Skip
import Mathlib.Data.List.TakeDrop

/-!
# Numbers and texts are read as they were written

Integers are written in decimal, without a zero in front, and texts in quotes, with escapes.  Reading
takes exactly that from the front of a text and gives the value back, provided that a number is not
continued by what follows it.

**Main statements.**
* `readNumber_toString`: an integer of 64 bits.
* `readText_escape`: a text, behind its opening quote.
-/

namespace CallProfiler.Json

/-! ## Digits -/

/-- What follows does not continue a number. -/
def Ends (rest : List Char) : Prop :=
  ∀ c ∈ rest.head?, isDigit c = false ∧ c ≠ '.' ∧ c ≠ 'e' ∧ c ≠ 'E'

theorem ends_nil :
    Ends [] := by
  simp [Ends]

theorem ends_cons
    {c : Char}
    (hdigit : isDigit c = false)
    (hpoint : c ≠ '.')
    (hexponent : c ≠ 'e' ∧ c ≠ 'E')
    (rest : List Char) :
    Ends (c :: rest) := by
  simp [Ends, hdigit, hpoint, hexponent]

/-- Digits in front of something else. -/
theorem span_isDigit
    {digits rest : List Char}
    (hdigits : ∀ c ∈ digits, isDigit c = true)
    (hrest : ∀ c ∈ rest.head?, isDigit c = false) :
    (digits ++ rest).span isDigit = (digits, rest) := by
  rw [List.span_eq_takeWhile_dropWhile]
  have htake : rest.takeWhile isDigit = [] ∧ rest.dropWhile isDigit = rest := by
    cases rest with
    | nil =>
        exact ⟨rfl, rfl⟩
    | cons c more =>
        have hc : isDigit c = false := hrest c rfl
        simp [hc]
  rw [List.takeWhile_append_of_pos hdigits, List.dropWhile_append_of_pos hdigits, htake.1, htake.2,
    List.append_nil]

theorem isDigit_of_mem_toDigits
    {n : Nat} {c : Char}
    (h : c ∈ Nat.toDigits 10 n) :
    isDigit c = true := by
  have hdigit := Nat.isDigit_of_mem_toDigits (by decide) (Nat.le_refl 10) h
  simp only [Char.isDigit, Bool.and_eq_true, decide_eq_true_eq] at hdigit
  simp only [isDigit, Bool.and_eq_true, decide_eq_true_eq]
  exact hdigit

/-- A positive number has no zero in front. -/
theorem head?_toDigits_ne
    {n : Nat}
    (h : n ≠ 0) :
    (Nat.toDigits 10 n).head? ≠ some '0' := by
  induction n using Nat.strongRecOn with
  | _ n ih =>
      by_cases hlt : n < 10
      · rw [Nat.toDigits_of_lt_base hlt]
        have hall : ∀ m < 10, m ≠ 0 → [Nat.digitChar m].head? ≠ some '0' := by decide
        exact hall n hlt h
      · have hfront := ih (n / 10) (Nat.div_lt_self (by omega) (by decide)) (by omega)
        rw [Nat.toDigits_of_base_le (by decide) (Nat.le_of_not_lt hlt)]
        cases hdigits : Nat.toDigits 10 (n / 10) with
        | nil => exact absurd hdigits Nat.toDigits_ne_nil
        | cons c more => simpa [hdigits] using hfront

/-- Only zero has a zero in front, and nothing behind that. -/
theorem toDigits_ne_zero_cons
    (n : Nat) (c : Char) (more : List Char) :
    Nat.toDigits 10 n ≠ '0' :: c :: more := by
  intro heq
  by_cases h : n = 0
  · subst h
    simp [Nat.toDigits_of_lt_base] at heq
  · exact head?_toDigits_ne h (by rw [heq]; rfl)

theorem someDigits_toDigits
    (n : Nat) {rest : List Char}
    (h : Ends rest) :
    someDigits (Nat.toDigits 10 n ++ rest) = .ok (Nat.toDigits 10 n, rest) := by
  have hspan : (Nat.toDigits 10 n ++ rest).span isDigit = (Nat.toDigits 10 n, rest) :=
    span_isDigit (fun c hc => isDigit_of_mem_toDigits hc) (fun c hc => (h c hc).1)
  unfold someDigits
  rw [hspan]
  split
  next heq =>
    exact absurd (Prod.mk.inj heq).1 Nat.toDigits_ne_nil
  next _ heq =>
    exact absurd (Prod.mk.inj heq).1 Nat.toDigits_ne_nil
  next heq =>
    obtain ⟨rfl, rfl⟩ := Prod.mk.inj heq
    rfl

/-- The value that digits give on top of one read before. -/
def valueOf (value : Nat) (digits : List Char) : Nat :=
  digits.foldl (fun n c => n * 10 + (c.toNat - 48)) value

theorem le_valueOf
    (value : Nat) (digits : List Char) :
    value ≤ valueOf value digits := by
  induction digits generalizing value with
  | nil =>
      exact Nat.le_refl value
  | cons c rest ih =>
      have hrest := ih (value * 10 + (c.toNat - 48))
      simp only [valueOf, List.foldl_cons] at hrest ⊢
      omega

theorem valueOf_append
    (value : Nat) (digits more : List Char) :
    valueOf value (digits ++ more) = valueOf (valueOf value digits) more :=
  List.foldl_append

theorem valueOf_toDigits
    (n : Nat) :
    valueOf 0 (Nat.toDigits 10 n) = n := by
  induction n using Nat.strongRecOn with
  | _ n ih =>
      by_cases hlt : n < 10
      · rw [Nat.toDigits_of_lt_base hlt]
        simp [valueOf, Nat.toNat_digitChar_of_lt_ten hlt]
      · have hlast := Nat.toNat_digitChar_of_lt_ten (Nat.mod_lt n (show 0 < 10 by decide))
        rw [Nat.toDigits_of_base_le (by decide) (Nat.le_of_not_lt hlt), valueOf_append,
          ih (n / 10) (Nat.div_lt_self (by omega) (by decide))]
        simp only [valueOf, List.foldl_cons, List.foldl_nil, hlast]
        omega

/-- No digit is left out of a number of 64 bits. -/
theorem leading_of_lt
    {value : Nat} {digits : List Char}
    (h : valueOf value digits < 2 ^ 64) :
    leading value digits = (valueOf value digits, 0) := by
  induction digits generalizing value with
  | nil =>
      rfl
  | cons c rest ih =>
      have hle := le_valueOf (value * 10 + (c.toNat - 48)) rest
      rw [leading]
      rw [if_pos (Nat.lt_of_le_of_lt hle h)]
      exact ih h

/-! ## Integers -/

theorem toList_toString_nat
    (n : Nat) :
    (toString n).toList = Nat.toDigits 10 n := by
  simp [toString, Nat.repr]

theorem toList_toString_int
    (n : Int) :
    (toString n).toList =
      if n < 0 then '-' :: Nat.toDigits 10 n.natAbs else Nat.toDigits 10 n.natAbs := by
  cases n with
  | ofNat m =>
      simp [toString, Int.repr, Nat.repr]
  | negSucc m =>
      simp [toString, Int.repr, Nat.repr, Int.negSucc_lt_zero]

/-- What starts a number of digits is no sign. -/
theorem head_toDigits
    (n : Nat) :
    ∃ c more, Nat.toDigits 10 n = c :: more ∧ isDigit c = true := by
  cases h : Nat.toDigits 10 n with
  | nil =>
      exact absurd h Nat.toDigits_ne_nil
  | cons c more =>
      exact ⟨c, more, rfl, isDigit_of_mem_toDigits (h ▸ List.mem_cons_self)⟩

theorem ne_minus_of_isDigit
    {c : Char}
    (h : isDigit c = true) :
    c ≠ '-' := by
  rintro rfl
  exact absurd h (by decide)

/-- Behind the digits of an integer comes neither a point nor an exponent. -/
theorem readFraction_of_ends
    (negative : Bool) (value : Nat) {rest : List Char}
    (h : Ends rest) :
    readFraction negative value 0 rest =
      if ¬ negative then .ok (.integer value, rest)
      else if value = 0 ∨ 2 ^ 63 < value then .ok (.fraction, rest)
      else .ok (.integer (-value), rest) := by
  cases rest with
  | nil =>
      rfl
  | cons c more =>
      obtain ⟨-, hpoint, he, hE⟩ := h c rfl
      unfold readFraction
      split
      next heq =>
        exact absurd (List.cons.inj heq).1 hpoint
      next =>
        simp [he, hE]

theorem readMagnitude_toDigits
    (negative : Bool) {n : Nat} {rest : List Char}
    (hlt : n < 2 ^ 64)
    (h : Ends rest) :
    readMagnitude negative (Nat.toDigits 10 n ++ rest) = readFraction negative n 0 rest := by
  have hvalue := valueOf_toDigits n
  have hleading : leading 0 (Nat.toDigits 10 n) = (valueOf 0 (Nat.toDigits 10 n), 0) :=
    leading_of_lt (by omega)
  unfold readMagnitude
  rw [someDigits_toDigits n h]
  split
  next heq =>
    cases heq
  next heq =>
    injection heq with heq
    exact absurd (Prod.mk.inj heq).1 (toDigits_ne_zero_cons n _ _)
  next heq =>
    injection heq with heq
    obtain ⟨rfl, rfl⟩ := Prod.mk.inj heq
    rw [hleading, hvalue]

/-- **An integer of 64 bits**, with a sign or without, is read as it was written. -/
theorem readNumber_toString
    {n : Int} {rest : List Char}
    (hlow : -2 ^ 63 ≤ n)
    (hhigh : n < 2 ^ 64)
    (h : Ends rest) :
    readNumber ((toString n).toList ++ rest) = .ok (.integer n, rest) := by
  rw [toList_toString_int]
  by_cases hneg : n < 0
  · rw [if_pos hneg, List.cons_append, readNumber, readMagnitude_toDigits true (by omega) h,
      readFraction_of_ends true n.natAbs h]
    have hsize : ¬ (n.natAbs = 0 ∨ 2 ^ 63 < n.natAbs) := by omega
    have hvalue : -(n.natAbs : Int) = n := by omega
    rw [if_neg (by simp), if_neg hsize, hvalue]
  · obtain ⟨c, more, hdigits, hc⟩ := head_toDigits n.natAbs
    have hread : readNumber (Nat.toDigits 10 n.natAbs ++ rest) =
        readMagnitude false (Nat.toDigits 10 n.natAbs ++ rest) := by
      rw [hdigits, List.cons_append]
      unfold readNumber
      split
      next heq =>
        exact absurd (List.cons.inj heq).1 (ne_minus_of_isDigit hc)
      next =>
        rfl
    have hvalue : (n.natAbs : Int) = n := by omega
    rw [if_neg hneg, hread, readMagnitude_toDigits false (by omega) h, readFraction_of_ends false _ h]
    simp [hvalue]

/-- A number starts with its sign or a digit. -/
theorem head_toString_int
    (n : Int) :
    ∃ c more, (toString n).toList = c :: more ∧ startsNumber c = true := by
  rw [toList_toString_int]
  split
  · exact ⟨'-', _, rfl, rfl⟩
  · obtain ⟨c, more, hdigits, hc⟩ := head_toDigits n.natAbs
    exact ⟨c, more, hdigits, by simp [startsNumber, hc]⟩

/-! ## Texts -/

theorem hexDigit?_digitChar :
    ∀ d < 16, Text.hexDigit? (Nat.digitChar d) = some d := by
  decide

/-- The escape of a control character stands for it. -/
theorem unicodeEscape_control
    {c : Char}
    (h : c.toNat < 0x20)
    (rest : List Char) :
    unicodeEscape
        ('0' :: '0' :: Nat.digitChar (c.toNat / 16) :: Nat.digitChar (c.toNat % 16) :: rest) =
      .ok (c, 4) := by
  have hzero := hexDigit?_digitChar 0 (by decide)
  have hhigh := hexDigit?_digitChar (c.toNat / 16) (by omega)
  have hlow := hexDigit?_digitChar (c.toNat % 16) (by omega)
  have hunit : codeUnit
      ('0' :: '0' :: Nat.digitChar (c.toNat / 16) :: Nat.digitChar (c.toNat % 16) :: rest) =
      .ok c.toNat := by
    have hdigits : ['0', '0', Nat.digitChar (c.toNat / 16), Nat.digitChar (c.toNat % 16)].mapM
        Text.hexDigit? = some [0, 0, c.toNat / 16, c.toNat % 16] := by
      change Text.hexDigit? '0' = some 0 at hzero
      simp [hzero, hhigh, hlow]
    have hvalue : c.toNat / 16 * 16 + c.toNat % 16 = c.toNat := by omega
    simp only [codeUnit, hdigits, List.foldl_cons, List.foldl_nil, Nat.zero_mul, Nat.zero_add, hvalue]
  unfold unicodeEscape
  simp only [hunit]
  rw [if_pos (Or.inl (by omega)), Char.ofNat_toNat]

/-- One character, escaped or not, is read in front of the others. -/
theorem readText_escape_append
    {s cs rest : List Char}
    (c : Char)
    (h : readText s = .ok (cs, rest)) :
    readText (escape c ++ s) = .ok (c :: cs, rest) := by
  unfold escape
  split
  case h_8 hquote hbackslash _ _ _ _ _ =>
    split
    next hcontrol =>
      simp only [List.cons_append, List.nil_append]
      rw [readText, unicodeEscape_control hcontrol]
      simp [h]
    next hplain =>
      simp only [List.cons_append, List.nil_append]
      rw [readText]
      · rw [if_neg hplain, h]
      · exact hquote
      · exact hbackslash
  all_goals
    simp only [List.cons_append, List.nil_append]
    rw [readText]
    · simp [escaped?, h]
    · decide

/-- **A text** is read as it was written, up to its closing quote. -/
theorem readText_escape
    (s rest : List Char) :
    readText (s.flatMap escape ++ '"' :: rest) = .ok (s, rest) := by
  induction s with
  | nil =>
      simp [readText]
  | cons c s ih =>
      rw [List.flatMap_cons, List.append_assoc]
      exact readText_escape_append c ih

end CallProfiler.Json
