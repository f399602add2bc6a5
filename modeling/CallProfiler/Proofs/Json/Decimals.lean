import CallProfiler.Proofs.Json.Scalars

/-!
# The text of a number with decimals is a number

Whatever digits and exponent a floating-point number comes to, the text that is written for it is a
number, or the word for a missing value.  Integers are numbers whatever their size.

**Main statements.**
* `isMagnitude_fraction`, `isMagnitude_whole`: the two shapes of a number.
* `shortest_ne_zero`: the shortest decimal of a positive number has a digit that is not zero.
* `isPlain_integer`, `isPlain_decimalText`: all of the text is skipped as one value.
-/

namespace CallProfiler.Json

/-! ## The parts of a number -/

/-- Digits that can stand in front of a point: one at least, and no zero in front of others. -/
structure IsWhole (whole : List Char) : Prop where
  digits : ∀ c ∈ whole, isDigit c = true
  nonempty : whole ≠ []
  proper : ∀ c more, whole ≠ '0' :: c :: more

/-- What can stand behind the digits of a number: nothing, or an exponent. -/
def IsExponent (s : List Char) : Prop := s = [] ∨ ∃ n : Int, s = 'e' :: (toString n).toList

theorem isWhole_toDigits
    (n : Nat) :
    IsWhole (Nat.toDigits 10 n) where
  digits := fun _ => isDigit_of_mem_toDigits
  nonempty := Nat.toDigits_ne_nil
  proper := toDigits_ne_zero_cons n

theorem isWhole_singleton
    {c : Char}
    (h : isDigit c = true) :
    IsWhole [c] where
  digits := by
    rintro d hd
    rw [List.mem_singleton.1 hd]
    exact h
  nonempty := by simp
  proper := by simp

/-- Digits that do not start with a zero. -/
theorem isWhole_of_head
    {digits : List Char}
    (h : ∀ c ∈ digits, isDigit c = true)
    (hsome : digits ≠ [])
    (hhead : digits.head? ≠ some '0') :
    IsWhole digits where
  digits := h
  nonempty := hsome
  proper := by
    rintro c more rfl
    exact hhead rfl

theorem skipDigits_append
    {digits rest : List Char}
    (hdigits : ∀ c ∈ digits, isDigit c = true)
    (hsome : digits ≠ [])
    (hrest : ∀ c ∈ rest.head?, isDigit c = false) :
    skipDigits (digits ++ rest) = .ok rest := by
  unfold skipDigits
  rw [span_isDigit hdigits hrest]
  split
  next heq => exact absurd (Prod.mk.inj heq).1 hsome
  next heq => rw [← (Prod.mk.inj heq).2]

/-- No digit follows in front of an exponent or the end of a number. -/
theorem IsExponent.head
    {s rest : List Char}
    (h : IsExponent s)
    (hrest : Ends rest) :
    ∀ c ∈ (s ++ rest).head?, isDigit c = false := by
  rcases h with rfl | ⟨n, rfl⟩
  · exact fun c hc => (hrest c hc).1
  · rintro c hc
    cases hc
    rfl

theorem IsExponent.skipExponent
    {s rest : List Char}
    (h : IsExponent s)
    (hrest : Ends rest) :
    skipExponent (s ++ rest) = .ok rest := by
  rcases h with rfl | ⟨n, rfl⟩
  · rw [List.nil_append]
    cases rest with
    | nil =>
        rfl
    | cons c more =>
        obtain ⟨-, -, he, hE⟩ := hrest c rfl
        simp [Json.skipExponent, he, hE]
  · have hdigits := skipDigits_append (fun _ => isDigit_of_mem_toDigits)
      (Nat.toDigits_ne_nil (n := n.natAbs) (b := 10)) (fun c hc => (hrest c hc).1)
    have hsign : (exponentDigits ((toString n).toList ++ rest)).2 = Nat.toDigits 10 n.natAbs ++ rest := by
      rw [toList_toString_int]
      split
      · rfl
      · obtain ⟨c, more, hfirst, hc⟩ := head_toDigits n.natAbs
        rw [hfirst, List.cons_append]
        unfold exponentDigits
        split
        next heq =>
          rw [(List.cons.inj heq).1] at hc
          exact absurd hc (by decide)
        next heq =>
          rw [(List.cons.inj heq).1] at hc
          exact absurd hc (by decide)
        next => rfl
    rw [List.cons_append, Json.skipExponent, if_pos (Or.inl rfl), hsign, hdigits]

/-! ## Numbers without a sign -/

/-- What is skipped as a number without a sign. -/
def IsMagnitude (text : List Char) : Prop :=
  ∀ rest : List Char, Ends rest → skipMagnitude (text ++ rest) = .ok rest

/-- **A number without a point.** -/
theorem isMagnitude_whole
    {digits exponent : List Char}
    (h : IsWhole digits)
    (hexponent : IsExponent exponent) :
    IsMagnitude (digits ++ exponent) := by
  intro rest hrest
  rw [List.append_assoc]
  have hspan := span_isDigit h.digits (hexponent.head hrest)
  have hskip := hexponent.skipExponent hrest
  unfold skipMagnitude
  rw [hspan]
  split
  next heq =>
    exact absurd (Prod.mk.inj heq).1 h.nonempty
  next heq =>
    exact absurd (Prod.mk.inj heq).1 (h.proper _ _)
  next more _ _ heq =>
    have hpoint := (Prod.mk.inj heq).2
    rcases hexponent with rfl | ⟨n, rfl⟩
    · rw [List.nil_append] at hpoint
      exact absurd rfl (hrest '.' (by rw [hpoint]; rfl)).2.1
    · exact absurd (List.cons.inj hpoint).1 (by decide)
  next heq =>
    rw [← (Prod.mk.inj heq).2, hskip]

/-- **A number with a point.** -/
theorem isMagnitude_fraction
    {digits exponent : List Char}
    (h : IsWhole digits)
    (decimals : List Char)
    (hdecimals : ∀ c ∈ decimals, isDigit c = true)
    (hsome : decimals ≠ [])
    (hexponent : IsExponent exponent) :
    IsMagnitude (digits ++ '.' :: (decimals ++ exponent)) := by
  intro rest hrest
  rw [List.append_assoc, List.cons_append, List.append_assoc]
  have hspan : (digits ++ '.' :: (decimals ++ (exponent ++ rest))).span isDigit =
      (digits, '.' :: (decimals ++ (exponent ++ rest))) :=
    span_isDigit h.digits (by rintro c hc; cases hc; rfl)
  have hskip := skipDigits_append hdecimals hsome (hexponent.head hrest)
  unfold skipMagnitude
  rw [hspan]
  split
  next heq =>
    exact absurd (Prod.mk.inj heq).1 h.nonempty
  next heq =>
    exact absurd (Prod.mk.inj heq).1 (h.proper _ _)
  next heq =>
    rw [← (List.cons.inj (Prod.mk.inj heq).2).2, hskip]
    exact hexponent.skipExponent hrest
  next hnone heq =>
    exact absurd (Prod.mk.inj heq).2.symm (hnone _)

/-! ## Shortest decimals -/

section Shortest

open Decimal

/-- No positive number reads back from zero. -/
theorem holds_zero
    {h : Neighbourhood}
    (hlow : 0 < h.low)
    (e : Int) :
    h.holds e 0 = false := by
  have hpositive : 0 < Neighbourhood.binaryUnits h.exponent e h.low :=
    Nat.mul_pos (Nat.mul_pos hlow (Nat.pow_pos (by decide))) (Nat.pow_pos (by decide))
  simp only [Neighbourhood.holds, Neighbourhood.decimalUnits, Nat.zero_mul]
  split
  · simp only [Bool.and_eq_false_iff, decide_eq_false_iff_not]
    omega
  · simp only [Bool.and_eq_false_iff, decide_eq_false_iff_not]
    omega

theorem le_roundHalfEven
    (numerator denominator : Nat) :
    numerator / denominator ≤ roundHalfEven numerator denominator := by
  simp only [roundHalfEven]
  split
  · exact Nat.le_refl _
  · split
    · exact Nat.le_succ _
    · exact Nat.le_add_right _ _

theorem onGrid?_ne_zero
    {h : Neighbourhood} {e : Int} {d : Nat}
    (hlow : 0 < h.low)
    (hd : h.onGrid? e = some d) :
    d ≠ 0 := by
  have hzero := holds_zero hlow e
  simp only [Neighbourhood.onGrid?] at hd
  split at hd
  next => cases hd
  next hdown _ =>
    cases hd
    intro hnone
    rw [hnone, hzero] at hdown
    cases hdown
  next =>
    cases hd
    exact Nat.succ_ne_zero _
  next hdown _ =>
    cases hd
    intro hnone
    have hle := le_roundHalfEven (Neighbourhood.binaryUnits h.exponent e h.value)
      (Neighbourhood.decimalUnits h.exponent e 1)
    rw [hnone] at hle
    rw [Nat.le_zero.1 hle, hzero] at hdown
    cases hdown

theorem dropZeros_ne_zero
    (fuel : Nat) {d : Nat} (e : Int)
    (hd : d ≠ 0) :
    (dropZeros fuel d e).1 ≠ 0 := by
  induction fuel generalizing d e with
  | zero =>
      exact hd
  | succ fuel ih =>
      rw [dropZeros]
      split
      · exact ih _ (by omega)
      · exact hd

/-- **The shortest decimal** of a positive number is not zero, unless none is found. -/
theorem shortest_ne_zero
    {magnitude : Nat}
    (h : magnitude ≠ 0)
    (exponent : Int) :
    (shortest magnitude exponent).1 ≠ 0 ∨ (shortest magnitude exponent).2 = 0 := by
  have hlow : 0 < (Neighbourhood.of magnitude exponent).low := by
    simp only [Neighbourhood.of]
    split <;> omega
  simp only [shortest]
  split
  next => exact Or.inr rfl
  next d e hfound =>
    obtain ⟨n, -, hn⟩ := List.exists_of_findSome?_eq_some hfound
    obtain ⟨d', hgrid, heq⟩ := Option.map_eq_some_iff.1 hn
    cases heq
    exact Or.inl (dropZeros_ne_zero 20 _ (onGrid?_ne_zero hlow hgrid))

end Shortest

/-! ## Notations -/

theorem isDigit_of_mem_replicate
    {n : Nat} {c : Char}
    (h : c ∈ List.replicate n '0') :
    isDigit c = true := by
  rw [List.eq_of_mem_replicate h]
  rfl

/-- Zeros behind the digits of a positive number. -/
theorem isWhole_append_zeros
    {d : Nat} {e : Int}
    (h : d ≠ 0 ∨ e = 0) :
    IsWhole (Nat.toDigits 10 d ++ List.replicate e.toNat '0') := by
  rcases h with hd | rfl
  · apply isWhole_of_head
    · rintro c hc
      rcases List.mem_append.1 hc with hc | hc
      · exact isDigit_of_mem_toDigits hc
      · exact isDigit_of_mem_replicate hc
    · simp [Nat.toDigits_ne_nil]
    · obtain ⟨c, more, hfirst, -⟩ := head_toDigits d
      have hhead := head?_toDigits_ne hd
      rw [hfirst] at hhead ⊢
      exact hhead
  · simpa using isWhole_toDigits d

/-- The first digits of a positive number. -/
theorem isWhole_take
    {d : Nat}
    (hd : d ≠ 0)
    (count : Nat)
    (hcount : 0 < count) :
    IsWhole ((Nat.toDigits 10 d).take count) := by
  obtain ⟨c, more, hfirst, -⟩ := head_toDigits d
  obtain ⟨count, rfl⟩ := Nat.exists_eq_succ_of_ne_zero (Nat.ne_of_gt hcount)
  apply isWhole_of_head
  · exact fun c hc => isDigit_of_mem_toDigits (List.mem_of_mem_take hc)
  · simp [hfirst]
  · have hhead := head?_toDigits_ne hd
    rw [hfirst] at hhead ⊢
    exact hhead

/-- One digit in front of the point, and an exponent. -/
theorem isMagnitude_scientific
    {c : Char} {tail : List Char}
    (hdigits : ∀ x ∈ c :: tail, isDigit x = true)
    (n : Int) :
    IsMagnitude (c :: ((if tail = [] then [] else '.' :: tail) ++ 'e' :: (toString n).toList)) := by
  have hexponent : IsExponent ('e' :: (toString n).toList) := Or.inr ⟨n, rfl⟩
  have hone := isWhole_singleton (hdigits c List.mem_cons_self)
  split
  next => exact isMagnitude_whole hone hexponent
  next hsome =>
    exact isMagnitude_fraction hone tail (fun x hx => hdigits x (List.mem_cons_of_mem _ hx)) hsome hexponent

/-- A decimal in either notation is a number without a sign. -/
theorem isMagnitude_render
    (style : Decimal.Style) {d : Nat} {e : Int}
    (h : d ≠ 0 ∨ e = 0)
    (hstyle : 0 < style.maxPoint) :
    IsMagnitude (Decimal.render style d e).toList := by
  have hdigits : ∀ c ∈ Nat.toDigits 10 d, isDigit c = true := fun _ => isDigit_of_mem_toDigits
  have hlength : (toString d).length = (Nat.toDigits 10 d).length := by
    rw [← String.length_toList, toList_toString_nat]
  have hlong : 0 < (Nat.toDigits 10 d).length := List.length_pos_iff.2 Nat.toDigits_ne_nil
  have hnone : IsExponent [] := Or.inl rfl
  simp only [Decimal.render, hlength]
  split
  next hwhole =>
    simpa [toList_toString_nat] using
      isMagnitude_fraction (isWhole_append_zeros h) ['0'] (by simp [isDigit]) (by simp) hnone
  next hwhole =>
    have hd : d ≠ 0 := by
      rintro rfl
      have hzero := h.resolve_left (by simp)
      simp [hzero] at hwhole
      omega
    split
    next hpoint =>
      simpa [toList_toString_nat] using isMagnitude_fraction
        (isWhole_take hd ((Nat.toDigits 10 d).length + e).toNat (by omega))
        ((Nat.toDigits 10 d).drop ((Nat.toDigits 10 d).length + e).toNat)
        (fun c hc => hdigits c (List.mem_of_mem_drop hc))
        (by simp only [ne_eq, List.drop_eq_nil_iff]; omega) hnone
    next hpoint =>
      split
      next hsmall =>
        have hall : ∀ c ∈ List.replicate (-((Nat.toDigits 10 d).length + e)).toNat '0' ++
            Nat.toDigits 10 d, isDigit c = true := by
          rintro c hc
          rcases List.mem_append.1 hc with hc | hc
          · exact isDigit_of_mem_replicate hc
          · exact hdigits c hc
        simpa [toList_toString_nat] using isMagnitude_fraction (isWhole_singleton (c := '0') rfl) _ hall
          (by simp [Nat.toDigits_ne_nil]) hnone
      next hlarge =>
        rw [toList_toString_nat]
        split
        next hempty => exact absurd hempty Nat.toDigits_ne_nil
        next c hcut =>
          have hread := isMagnitude_scientific (hcut ▸ hdigits) ((Nat.toDigits 10 d).length + e - 1)
          simpa using hread
        next c tail hsome hcut =>
          have htail : tail ≠ [] := by
            rintro rfl
            exact hsome rfl
          have hread := isMagnitude_scientific (hcut ▸ hdigits) ((Nat.toDigits 10 d).length + e - 1)
          simpa [htail] using hread

/-! ## Plain values -/

/-- A text that is skipped as one value and is neither a quoted text nor a list nor a record. -/
structure IsPlain (text : List Char) : Prop where
  starts : ∃ c more, text = c :: more ∧ (startsNumber c = true ∨ c = 'n')
  skips : ∀ {rest : List Char}, Ends rest → skipScalar (text ++ rest) = .ok rest

theorem IsMagnitude.head
    {text : List Char}
    (h : IsMagnitude text) :
    ∃ c more, text = c :: more ∧ isDigit c = true := by
  have hskip := h [] ends_nil
  rw [List.append_nil] at hskip
  cases text with
  | nil =>
      simp [skipMagnitude] at hskip
  | cons c more =>
      refine ⟨c, more, rfl, ?_⟩
      by_contra hdigit
      have hspan : (c :: more).span isDigit = ([], c :: more) := by
        have hc : isDigit c = false := by simpa using hdigit
        simp [List.span_eq_takeWhile_dropWhile, hc]
      rw [skipMagnitude, hspan] at hskip
      cases hskip

/-- A number starts with none of the letters and marks of other values. -/
theorem skipScalar_number
    {c : Char}
    (h : startsNumber c = true)
    (more : List Char) :
    skipScalar (c :: more) = skipNumber (c :: more) := by
  have hne : ∀ d : Char, startsNumber d = false → c ≠ d := by
    rintro d hd rfl
    rw [h] at hd
    cases hd
  rw [skipScalar, if_neg (hne _ (by decide)), if_neg (hne _ (by decide)), if_neg (hne _ (by decide)),
    if_neg (hne _ (by decide)), if_pos h]

theorem IsMagnitude.isPlain
    {text : List Char}
    (h : IsMagnitude text) :
    IsPlain text := by
  obtain ⟨c, more, rfl, hc⟩ := h.head
  have hstarts : startsNumber c = true := by simp [startsNumber, hc]
  refine ⟨⟨c, more, rfl, Or.inl hstarts⟩, ?_⟩
  intro rest hrest
  rw [List.cons_append, skipScalar_number hstarts, ← List.cons_append]
  rw [← h rest hrest, List.cons_append, skipNumber]
  rintro tail heq
  exact ne_minus_of_isDigit hc (List.cons.inj heq).1

theorem IsMagnitude.isPlain_minus
    {text : List Char}
    (h : IsMagnitude text) :
    IsPlain ('-' :: text) := by
  refine ⟨⟨'-', text, rfl, Or.inl rfl⟩, ?_⟩
  intro rest hrest
  rw [List.cons_append, skipScalar_number rfl, skipNumber, h rest hrest]

theorem isMagnitude_toDigits
    (n : Nat) :
    IsMagnitude (Nat.toDigits 10 n) := by
  simpa using isMagnitude_whole (isWhole_toDigits n) (Or.inl rfl)

/-- **An integer** of any size is a number. -/
theorem isPlain_integer
    (n : Int) :
    IsPlain (toString n).toList := by
  have hdigits := isMagnitude_toDigits n.natAbs
  rw [toList_toString_int]
  split
  · exact hdigits.isPlain_minus
  · exact hdigits.isPlain

theorem isPlain_null :
    IsPlain "null".toList := by
  refine ⟨⟨'n', _, rfl, Or.inr rfl⟩, ?_⟩
  intro rest _
  simp [skipScalar, skipWord]

/-- **A number with decimals** is a number, or the word for a missing value. -/
theorem isPlain_decimalText
    (x : Float) :
    IsPlain (decimalText x).toList := by
  unfold decimalText
  split
  next negative _ _ =>
    have hzero : IsMagnitude ['0', '.', '0'] :=
      isMagnitude_fraction (isWhole_singleton (c := '0') rfl) ['0'] (by simp [isDigit]) (by simp)
        (Or.inl rfl)
    cases negative
    · exact hzero.isPlain
    · exact hzero.isPlain_minus
  next negative magnitude exponent hpositive _ =>
    have hrender : IsMagnitude
        (Decimal.render decimalStyle (Decimal.shortest magnitude exponent).1
          (Decimal.shortest magnitude exponent).2).toList :=
      isMagnitude_render decimalStyle (shortest_ne_zero hpositive exponent) (by decide)
    cases negative
    · simpa using hrender.isPlain
    · simpa using hrender.isPlain_minus
  next =>
    exact isPlain_null

end CallProfiler.Json
