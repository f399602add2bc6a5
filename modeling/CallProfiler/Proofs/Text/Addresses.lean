import CallProfiler.Proofs.Text.Hex
import CallProfiler.Proofs.Text.Words
import CallProfiler.Text.Address

/-!
# What is read as an address

An address is typed as hexadecimal digits, with separators anywhere among them, a mark in front of them, and
blanks around it all.  The separators are taken out first, and what is left is read as a number; so a plus
sign that numbers may have is let through in front of the first digit, even behind the mark.

**Main statements.**
* `parseAddress_eq_ok_iff`: everything that is read as an address.
* `parseAddress_signed`: a sign behind the mark.
-/

namespace CallProfiler.Text

/-! ## Addresses as they are typed -/

/-- What is left of a text without its mark for hexadecimal numbers, if it has one. -/
inductive Marked : List Char → List Char → Prop where
  | lower (body : List Char) : Marked ('0' :: 'x' :: body) body
  | upper (body : List Char) : Marked ('0' :: 'X' :: body) body
  | none
      {body : List Char}
      (hlower : ∀ rest, body ≠ '0' :: 'x' :: rest)
      (hupper : ∀ rest, body ≠ '0' :: 'X' :: rest) :
      Marked body body

/-- At least one digit, and separators anywhere, of a value. -/
structure Grouped (body : List Char) (n : Nat) : Prop where
  spelled : ∀ c ∈ body, c = '_' ∨ c ∈ hexAlphabet
  digit : ∃ c ∈ body, c ∈ hexAlphabet
  value : hexValue (body.filter (· ≠ '_')) = n

/-- Digits with separators among them, a mark in front if there is one, and blanks around it all. -/
def IsAddress (s : List Char) (n : Nat) : Prop :=
  ∃ core body, Encloses s core ∧ Marked core body ∧ Grouped body n

/-- The same with a plus sign in front of the first digit. -/
def IsSignedAddress (s : List Char) (n : Nat) : Prop :=
  ∃ core separators digits, Encloses s core ∧ Marked core (separators ++ '+' :: digits) ∧
    (∀ c ∈ separators, c = '_') ∧ Grouped digits n

/-! ## Marks and separators -/

variable {s body : List Char} {n : Nat}

theorem dropHexMark_eq_iff :
    dropHexMark s = body ↔ Marked s body := by
  constructor
  · rintro rfl
    unfold dropHexMark
    split
    next rest =>
      exact .lower rest
    next rest =>
      exact .upper rest
    next hlower hupper =>
      exact .none hlower hupper
  · intro h
    cases h with
    | lower =>
        rfl
    | upper =>
        rfl
    | none hlower hupper =>
        unfold dropHexMark
        split
        next rest =>
          exact absurd rfl (hlower rest)
        next rest =>
          exact absurd rfl (hupper rest)
        next =>
          rfl

/-- Without its separators, the text is a number. -/
theorem numeral_filter_iff :
    Numeral (body.filter (· ≠ '_')) n ↔ Grouped body n := by
  have hkept {c : Char} : c ∈ body.filter (· ≠ '_') ↔ c ∈ body ∧ c ≠ '_' := by
    simp
  have hother {c : Char} (h : c ∈ hexAlphabet) : c ≠ '_' := by
    rintro rfl
    exact absurd h (by decide)
  constructor
  · rintro ⟨hnonempty, hdigits, hvalue⟩
    refine ⟨fun c hc => ?_, ?_, hvalue⟩
    · by_cases hseparator : c = '_'
      · exact .inl hseparator
      · exact .inr (hdigits c (hkept.2 ⟨hc, hseparator⟩))
    · obtain ⟨c, hc⟩ := List.exists_mem_of_ne_nil _ hnonempty
      exact ⟨c, (hkept.1 hc).1, hdigits c hc⟩
  · rintro ⟨hspelled, ⟨c, hc, hdigit⟩, hvalue⟩
    refine ⟨List.ne_nil_of_mem (hkept.2 ⟨hc, hother hdigit⟩), fun d hd => ?_, hvalue⟩
    obtain ⟨hd, hdigit⟩ := hkept.1 hd
    exact (hspelled d hd).resolve_left hdigit

/-- A sign comes first among what is no separator. -/
theorem filter_eq_plus_cons_iff
    {digits : List Char} :
    body.filter (· ≠ '_') = '+' :: digits ↔
      ∃ separators rest, body = separators ++ '+' :: rest ∧ (∀ c ∈ separators, c = '_') ∧
        rest.filter (· ≠ '_') = digits := by
  rw [List.filter_eq_cons_iff]
  simp

/-! ## Reading -/

theorem isAddress_iff :
    IsAddress s n ↔ Grouped (dropHexMark (trim s)) n := by
  constructor
  · rintro ⟨core, body, hcore, hbody, hgrouped⟩
    rw [trim_eq_iff.2 hcore, dropHexMark_eq_iff.2 hbody]
    exact hgrouped
  · intro h
    exact ⟨_, _, trim_eq_iff.1 rfl, dropHexMark_eq_iff.1 rfl, h⟩

theorem isSignedAddress_iff :
    IsSignedAddress s n ↔
      ∃ digits, (dropHexMark (trim s)).filter (· ≠ '_') = '+' :: digits ∧ Numeral digits n := by
  constructor
  · rintro ⟨core, separators, digits, hcore, hbody, hseparators, hgrouped⟩
    rw [trim_eq_iff.2 hcore, dropHexMark_eq_iff.2 hbody]
    exact ⟨_, filter_eq_plus_cons_iff.2 ⟨separators, digits, rfl, hseparators, rfl⟩,
      numeral_filter_iff.2 hgrouped⟩
  · rintro ⟨_, hfilter, hdigits⟩
    obtain ⟨separators, digits, hbody, hseparators, rfl⟩ := filter_eq_plus_cons_iff.1 hfilter
    exact ⟨_, separators, digits, trim_eq_iff.1 rfl, dropHexMark_eq_iff.1 hbody, hseparators,
      numeral_filter_iff.1 hdigits⟩

theorem parseAddress_eq_ok_iff_readHex
    {text : String} :
    parseAddress text = .ok n ↔
      readHex ((dropHexMark (trim text.toList)).filter (· ≠ '_')) = .ok n := by
  unfold parseAddress
  split
  next hnone =>
    rw [hnone]
    simp [readHex]
  next =>
    cases readHex ((dropHexMark (trim text.toList)).filter (· ≠ '_')) with
    | error fault =>
        simp [Except.mapError]
    | ok value =>
        simp [Except.mapError]

/-- **What is read as an address**: hexadecimal digits of a value of 64 bits, with separators anywhere among
them, behind a mark or not and between blanks or not; and all that with a plus sign in front of the first
digit as well.  Nothing else is read. -/
theorem parseAddress_eq_ok_iff
    (text : String) (n : Nat) :
    parseAddress text = .ok n ↔
      n < 2 ^ 64 ∧ (IsAddress text.toList n ∨ IsSignedAddress text.toList n) := by
  rw [parseAddress_eq_ok_iff_readHex, readHex_eq_ok_iff, isAddress_iff, isSignedAddress_iff,
    numeral_filter_iff]

/-- A sign behind the mark is no part of an address, but is let through. -/
theorem parseAddress_signed :
    parseAddress "0x+5" = .ok 5 ∧ ¬ ∃ n, IsAddress "0x+5".toList n := by
  constructor
  · cbv
  · rintro ⟨n, h⟩
    rw [isAddress_iff, show dropHexMark (trim "0x+5".toList) = ['+', '5'] by cbv] at h
    exact absurd (h.spelled '+' (by simp)) (by decide)

end CallProfiler.Text
