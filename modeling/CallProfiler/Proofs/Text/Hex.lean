import CallProfiler.Proofs.Json.Scalars
import CallProfiler.Text.Hex
import Mathlib.Tactic.SplitIfs

/-!
# Hexadecimal numbers are read as they were written

The reader takes digits one by one and refuses a number as soon as it does not fit, so the digits
written for a number of 64 bits give it back.  What else it reads are other spellings of the number: digits
of either case, zeros in front, and a plus sign in front of them all.

**Main statements.**
* `readHexDigits_hexDigits`: the digits of a number.
* `readHex_hexDigits`: the digits as a number on their own.
* `readHex_eq_ok_iff`: everything that is read as a number.
-/

namespace CallProfiler.Text

/-! ## What was written -/

/-- Digits in front are read first. -/
theorem readHexDigits_append
    {value n : Nat} {digits : List Char}
    (h : readHexDigits value digits = .ok n)
    (more : List Char) :
    readHexDigits value (digits ++ more) = readHexDigits n more := by
  induction digits generalizing value with
  | nil =>
      cases h
      rfl
  | cons c rest ih =>
      rw [readHexDigits] at h
      rw [List.cons_append, readHexDigits]
      split at h
      next => cases h
      next d hd =>
        split at h
        next hfits =>
          rw [if_pos hfits]
          exact ih h
        next => cases h

theorem readHexDigits_singleton
    (value : Nat) {d : Nat}
    (hdigit : d < 16)
    (hfits : value * 16 + d < 2 ^ 64) :
    readHexDigits value [Nat.digitChar d] = .ok (value * 16 + d) := by
  simp only [readHexDigits, Json.hexDigit?_digitChar d hdigit, if_pos hfits]

/-- **The digits of a number** of 64 bits give it back. -/
theorem readHexDigits_hexDigits
    {n : Nat}
    (h : n < 2 ^ 64) :
    readHexDigits 0 (hexDigits n) = .ok n := by
  induction n using Nat.strongRecOn with
  | _ n ih =>
      by_cases hlt : n < 16
      · have hread := readHexDigits_singleton 0 hlt (by omega)
        rw [hexDigits, Nat.toDigits_of_lt_base hlt, hread, Nat.zero_mul, Nat.zero_add]
      · have hfront := ih (n / 16) (Nat.div_lt_self (by omega) (by decide)) (by omega)
        have hlast := Nat.mod_lt n (show 0 < 16 by decide)
        have hvalue : n / 16 * 16 + n % 16 = n := by omega
        rw [hexDigits] at hfront
        rw [hexDigits, Nat.toDigits_of_base_le (by decide) (Nat.le_of_not_lt hlt),
          readHexDigits_append hfront, readHexDigits_singleton _ hlast (by omega), hvalue]

/-- **The digits on their own** are the text of the number: a sign in front would be refused. -/
theorem readHex_hexDigits
    {n : Nat}
    (h : n < 2 ^ 64) :
    readHex (hexDigits n) = .ok n := by
  have hread := readHexDigits_hexDigits h
  unfold readHex
  split
  next heq =>
    exact absurd heq Nat.toDigits_ne_nil
  next heq =>
    rw [heq, readHexDigits, show hexDigit? '+' = none from rfl] at hread
    cases hread
  next =>
    exact hread

/-! ## What is read -/

/-- The digits of hexadecimal numbers, in both cases. -/
def hexAlphabet : List Char :=
  ['0', '1', '2', '3', '4', '5', '6', '7', '8', '9', 'a', 'b', 'c', 'd', 'e', 'f',
    'A', 'B', 'C', 'D', 'E', 'F']

/-- What a digit stands for: its place in the alphabet, whatever its case. -/
def digitValue (c : Char) : Nat := hexAlphabet.idxOf c.toLower

/-- The value of digits by their places. -/
def hexValue : List Char → Nat
  | [] => 0
  | c :: rest => digitValue c * 16 ^ rest.length + hexValue rest

/-- At least one digit and nothing else, of a value. -/
structure Numeral (s : List Char) (n : Nat) : Prop where
  nonempty : s ≠ []
  digits : ∀ c ∈ s, c ∈ hexAlphabet
  value : hexValue s = n

/-- What holds of all digits is checked one by one. -/
theorem forall_mem_hexAlphabet
    {p : Char → Prop} [DecidablePred p]
    (h : hexAlphabet.all (fun c => decide (p c)) = true) :
    ∀ c ∈ hexAlphabet, p c :=
  fun c hc => of_decide_eq_true (List.all_eq_true.1 h c hc)

theorem hexDigit?_of_mem :
    ∀ c ∈ hexAlphabet, hexDigit? c = some (digitValue c) :=
  forall_mem_hexAlphabet (by decide)

theorem mem_of_hexDigit? :
    ∀ n < 128, (hexDigit? (Char.ofNat n)).isSome = true → Char.ofNat n ∈ hexAlphabet := by
  decide +kernel

theorem hexDigit?_eq_some_iff
    {c : Char} {d : Nat} :
    hexDigit? c = some d ↔ c ∈ hexAlphabet ∧ digitValue c = d := by
  constructor
  · intro h
    have hsmall : c.toNat < 128 := by
      simp only [hexDigit?] at h
      split_ifs at h <;> omega
    have hmem : c ∈ hexAlphabet := by
      have hlisted := mem_of_hexDigit? c.toNat hsmall
      rw [Char.ofNat_toNat, h] at hlisted
      exact hlisted rfl
    exact ⟨hmem, Option.some.inj ((hexDigit?_of_mem c hmem).symm.trans h)⟩
  · rintro ⟨hmem, rfl⟩
    exact hexDigit?_of_mem c hmem

/-- Digits are read onto a number as their value, if the result has 64 bits. -/
theorem readHexDigits_eq_ok_iff
    {value n : Nat} {s : List Char}
    (hvalue : value < 2 ^ 64) :
    readHexDigits value s = .ok n ↔
      (∀ c ∈ s, c ∈ hexAlphabet) ∧ value * 16 ^ s.length + hexValue s = n ∧ n < 2 ^ 64 := by
  induction s generalizing value with
  | nil =>
      simp only [readHexDigits, hexValue, List.length_nil]
      constructor
      · intro h
        cases h
        exact ⟨by simp, by omega, hvalue⟩
      · rintro ⟨-, rfl, -⟩
        simp
  | cons c rest ih =>
      simp only [readHexDigits, hexValue, List.length_cons, List.forall_mem_cons]
      have hplaces (d : Nat) : (value * 16 + d) * 16 ^ rest.length =
          value * 16 ^ (rest.length + 1) + d * 16 ^ rest.length := by
        rw [Nat.add_mul, Nat.pow_succ', Nat.mul_assoc]
      cases hc : hexDigit? c with
      | none =>
          have hno : c ∉ hexAlphabet := fun hmem => by
            simp [hexDigit?_of_mem c hmem] at hc
          simp [hno]
      | some d =>
          obtain ⟨hmem, rfl⟩ := hexDigit?_eq_some_iff.1 hc
          simp only
          split
          next hfits =>
            rw [ih hfits, hplaces]
            simp [hmem, Nat.add_assoc]
          next hlarge =>
            have hpos : 1 ≤ 16 ^ rest.length := Nat.one_le_pow _ _ (by decide)
            have hgrows := Nat.mul_le_mul_left (value * 16 + digitValue c) hpos
            constructor
            · intro h
              cases h
            · rintro ⟨-, rfl, hfits⟩
              rw [hplaces] at hgrows
              omega

theorem readHexDigits_zero
    {s : List Char} {n : Nat}
    (h : s ≠ []) :
    readHexDigits 0 s = .ok n ↔ n < 2 ^ 64 ∧ Numeral s n := by
  rw [readHexDigits_eq_ok_iff (by decide), Nat.zero_mul, Nat.zero_add]
  constructor
  · rintro ⟨hmem, hvalue, hfits⟩
    exact ⟨hfits, h, hmem, hvalue⟩
  · rintro ⟨hfits, -, hmem, hvalue⟩
    exact ⟨hmem, hvalue, hfits⟩

/-- The digits written for a number are digits of the alphabet, in every base up to sixteen. -/
theorem mem_hexAlphabet_of_mem_toDigits
    {base : Nat}
    (hlarge : 1 < base)
    (hsmall : base ≤ 16)
    (n : Nat) :
    ∀ c ∈ Nat.toDigits base n, c ∈ hexAlphabet := by
  have hdigit : ∀ d < 16, Nat.digitChar d ∈ hexAlphabet := by
    decide
  induction n using Nat.strongRecOn with
  | _ n ih =>
      intro c hc
      by_cases hlt : n < base
      · rw [Nat.toDigits_of_lt_base hlt, List.mem_singleton] at hc
        rw [hc]
        exact hdigit n (by omega)
      · have hbase := Nat.le_of_not_lt hlt
        rw [Nat.toDigits_of_base_le hlarge hbase, List.mem_append, List.mem_singleton] at hc
        rcases hc with hc | rfl
        · exact ih (n / base) (Nat.div_lt_self (by omega) hlarge) c hc
        · have hrest := Nat.mod_lt n (show 0 < base by omega)
          exact hdigit _ (by omega)

theorem numeral_hexDigits
    {n : Nat}
    (h : n < 2 ^ 64) :
    Numeral (hexDigits n) n :=
  ((readHexDigits_zero Nat.toDigits_ne_nil).1 (readHexDigits_hexDigits h)).2

theorem Numeral.notMem
    {s : List Char} {n : Nat} {c : Char}
    (h : Numeral s n)
    (hc : c ∉ hexAlphabet) :
    c ∉ s :=
  fun hmem => hc (h.digits c hmem)

/-- Zeros in front change nothing. -/
theorem Numeral.zeros
    {s : List Char} {n : Nat}
    (h : Numeral s n)
    (count : Nat) :
    Numeral (List.replicate count '0' ++ s) n := by
  induction count with
  | zero =>
      exact h
  | succ count ih =>
      have hzero : digitValue '0' = 0 := by
        decide
      rw [List.replicate_succ, List.cons_append]
      refine ⟨List.cons_ne_nil _ _, List.forall_mem_cons.2 ⟨by decide, ih.digits⟩, ?_⟩
      rw [hexValue, hzero, Nat.zero_mul, Nat.zero_add, ih.value]

/-- **What is read** as a number: digits of a value of 64 bits, maybe behind a plus sign. -/
theorem readHex_eq_ok_iff
    {s : List Char} {n : Nat} :
    readHex s = .ok n ↔
      n < 2 ^ 64 ∧ (Numeral s n ∨ ∃ digits, s = '+' :: digits ∧ Numeral digits n) := by
  have hplus {rest : List Char} : ¬ Numeral ('+' :: rest) n := fun h =>
    absurd (h.digits '+' List.mem_cons_self) (by decide)
  unfold readHex
  split
  next =>
    have hempty : ¬ Numeral [] n := fun h => h.nonempty rfl
    simp [hempty]
  next c rest =>
    rw [readHexDigits_zero (List.cons_ne_nil c rest)]
    simp [hplus]
  next hnonempty hsigned =>
    have hunsigned : ¬ ∃ digits, s = '+' :: digits ∧ Numeral digits n := by
      rintro ⟨digits, rfl, hdigits⟩
      obtain ⟨c, rest, rfl⟩ := List.exists_cons_of_ne_nil hdigits.nonempty
      exact hsigned c rest rfl
    rw [readHexDigits_zero hnonempty, or_iff_left hunsigned]

end CallProfiler.Text
