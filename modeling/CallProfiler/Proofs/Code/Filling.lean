import CallProfiler.Proofs.Code.Reach
import CallProfiler.Proofs.Code.Scanning

/-!
# Every marker is filled

A scan continues behind each occurrence that it finds, and so would miss one that overlaps it.  If no
beginning of a marker is also its end, its occurrences do not overlap, and the scan finds them all, wherever
in the code they lie.  All displacements are computed before the first of them is stored: if one does not
fit, the code is as it was.

**Main statements.**
* `Unbordered.apart`: occurrences do not overlap.
* `occurrences_eq_filter`: a scan finds all occurrences.
* `fills_put`: what stores at the offsets found make of the code.
* `run_fillRelative`: filling the code in place.
* `markers_are_filled`: displacements and absolute values.
-/

namespace CallProfiler.Code

open Bytes

variable {pattern code a b data : List UInt8} {o x base index target value : Nat}
  {stores : List (Nat × List UInt8)}

/-! ## Occurrences -/

/-- The bytes of the code from an offset on begin with the pattern. -/
def OccursAt (pattern code : List UInt8) (o : Nat) : Prop := pattern <+: code.drop o

instance (pattern code : List UInt8) (o : Nat) : Decidable (OccursAt pattern code o) :=
  inferInstanceAs (Decidable (_ <+: _))

/-- No beginning of the pattern, other than nothing and all of it, is also its end. -/
def Unbordered (pattern : List UInt8) : Prop :=
  ∀ n < pattern.length, 0 < n → pattern.take n ≠ pattern.drop (pattern.length - n)

instance (pattern : List UInt8) : Decidable (Unbordered pattern) :=
  inferInstanceAs (Decidable (∀ n < pattern.length, _))

theorem occursAt_iff_take :
    OccursAt pattern code o ↔ (code.drop o).take pattern.length = pattern := by
  rw [OccursAt, List.prefix_iff_eq_take, eq_comm]

theorem occursAt_iff_getElem? :
    OccursAt pattern code o ↔ ∀ i (h : i < pattern.length), code[o + i]? = some pattern[i] := by
  rw [OccursAt, List.prefix_iff_getElem?]
  simp only [List.getElem?_drop]

theorem occursAt_cons_succ
    (c : UInt8) (rest : List UInt8) (o : Nat) :
    OccursAt pattern (c :: rest) (o + 1) ↔ OccursAt pattern rest o :=
  Iff.rfl

theorem OccursAt.fits
    (h : OccursAt pattern code o)
    (hpattern : pattern ≠ []) :
    o + pattern.length ≤ code.length := by
  have hlength := h.length_le
  have hpos := List.length_pos_of_ne_nil hpattern
  rw [List.length_drop] at hlength
  omega

/-- Whether a pattern occurs depends on the bytes that it takes. -/
theorem OccursAt.congr
    (h : OccursAt pattern a o)
    (same : ∀ x, o ≤ x → x < o + pattern.length → b[x]? = a[x]?) :
    OccursAt pattern b o := by
  rw [occursAt_iff_getElem?] at h ⊢
  intro i hi
  rw [same (o + i) (Nat.le_add_right o i) (Nat.add_lt_add_left hi o)]
  exact h i hi

/-- **Occurrences of an unbordered pattern** do not overlap: the bytes that two of them have in common would
be the beginning of one and the end of the other. -/
theorem Unbordered.apart
    {first second : Nat}
    (h : Unbordered pattern)
    (hfirst : OccursAt pattern code first)
    (hsecond : OccursAt pattern code second)
    (hlt : first < second) :
    first + pattern.length ≤ second := by
  by_contra hoverlap
  obtain ⟨shift, rfl⟩ := Nat.exists_eq_add_of_lt hlt
  let common := pattern.length - (shift + 1)
  have hend : pattern.drop (shift + 1) = ((code.drop (first + shift + 1)).take common) := by
    rw [← occursAt_iff_take.1 hfirst, List.drop_take, List.drop_drop]
    rfl
  have hstart : pattern.take common = (code.drop (first + shift + 1)).take common := by
    rw [← occursAt_iff_take.1 hsecond, List.take_take, Nat.min_eq_left (Nat.sub_le _ _)]
  refine h common (by omega) (by omega) ?_
  rw [hstart, ← hend]
  congr 1
  omega

/-! ## Scans -/

/-- The occurrences behind the first byte, counted from that byte. -/
theorem filter_occursAt_cons
    {skip skip' : Nat} {c : UInt8} {rest : List UInt8}
    (offset : Nat)
    (hsame : ∀ k, OccursAt pattern rest k → (skip ≤ k + 1 ↔ skip' ≤ k)) :
    (((List.range rest.length).map Nat.succ).filter fun k =>
        skip ≤ k ∧ OccursAt pattern (c :: rest) k).map (offset + ·) =
      ((List.range rest.length).filter fun k => skip' ≤ k ∧ OccursAt pattern rest k).map (offset + 1 + ·) := by
  have hfilter : (List.range rest.length).filter
        ((fun k => decide (skip ≤ k ∧ OccursAt pattern (c :: rest) k)) ∘ Nat.succ) =
      (List.range rest.length).filter fun k => skip' ≤ k ∧ OccursAt pattern rest k := by
    refine List.filter_congr fun k _ => decide_eq_decide.2 ?_
    exact and_congr_left fun hk => hsame k hk
  rw [List.filter_map, List.map_map, hfilter]
  refine List.map_congr_left fun k _ => ?_
  simp only [Function.comp_apply]
  omega

theorem occurrencesFrom_eq_filter
    (h : Unbordered pattern)
    (offset skip : Nat) (code : List UInt8) :
    occurrencesFrom pattern offset skip code =
      ((List.range code.length).filter fun k => skip ≤ k ∧ OccursAt pattern code k).map (offset + ·) := by
  induction code generalizing offset skip with
  | nil =>
      rfl
  | cons c rest ih =>
      rw [List.length_cons, List.range_succ_eq_map]
      cases skip with
      | succ n =>
          rw [List.filter_cons_of_neg (by simp), occurrencesFrom, ih]
          exact (filter_occursAt_cons offset fun k _ => Nat.succ_le_succ_iff).symm
      | zero =>
          rw [occurrencesFrom]
          split
          · next hhere =>
              have hoccurs : OccursAt pattern (c :: rest) 0 := occursAt_iff_take.2 hhere
              rw [List.filter_cons_of_pos (by simpa using hoccurs), List.map_cons, Nat.add_zero, ih]
              -- What is skipped is covered by the occurrence that was found.
              refine congrArg _ (filter_occursAt_cons offset fun k hk => ?_).symm
              have hapart := h.apart hoccurs ((occursAt_cons_succ c rest k).2 hk) (Nat.succ_pos k)
              omega
          · next hnot =>
              have hnone : ¬ OccursAt pattern (c :: rest) 0 := fun hoccurs => hnot (occursAt_iff_take.1 hoccurs)
              rw [List.filter_cons_of_neg (by simpa using hnone), ih]
              exact (filter_occursAt_cons offset fun k _ => by simp).symm

/-- **A scan** for an unbordered pattern finds all its occurrences, in ascending order. -/
theorem occurrences_eq_filter
    (h : Unbordered pattern)
    (code : List UInt8) :
    occurrences pattern code = (List.range code.length).filter (OccursAt pattern code ·) := by
  rw [occurrences, occurrencesFrom_eq_filter h]
  simp

/-- A marker that ends as it begins may overlap itself, and the second of two such occurrences is missed. -/
example :
    let code : List UInt8 := [0x31, 0x59, 0x41, 0x31, 0x59, 0x41, 0x31]
    occurrences (relativeSlot 0x31) code = [0] ∧ OccursAt (relativeSlot 0x31) code 3 := by
  decide

theorem mem_occurrences_iff
    (hpattern : pattern ≠ [])
    (h : Unbordered pattern) :
    o ∈ occurrences pattern code ↔ OccursAt pattern code o := by
  rw [occurrences_eq_filter h, List.mem_filter, List.mem_range, decide_eq_true_iff]
  refine and_iff_right_of_imp fun hoccurs => ?_
  have hfits := hoccurs.fits hpattern
  have hpos := List.length_pos_of_ne_nil hpattern
  omega

theorem length_occurrences
    (h : Unbordered pattern) :
    (occurrences pattern code).length = (List.range code.length).countP (OccursAt pattern code ·) := by
  rw [occurrences_eq_filter h, List.countP_eq_length_filter]

theorem pairwise_occurrences
    (h : Unbordered pattern) :
    (occurrences pattern code).Pairwise (· < ·) := by
  rw [occurrences_eq_filter h]
  exact List.pairwise_lt_range.filter _

/-! ## Stores -/

theorem getElem?_overwrite
    (fits : o + data.length ≤ code.length) :
    (overwrite code o data)[x]? =
      if o ≤ x ∧ x < o + data.length then data[x - o]? else code[x]? := by
  have htake : (code.take o).length = o := List.length_take_of_le (by omega)
  rw [overwrite, List.getElem?_append, List.length_append, htake, List.getElem?_append, htake]
  split
  · next hfront =>
      split
      · next hbefore =>
          rw [if_neg (by omega), List.getElem?_take_of_lt hbefore]
      · next hin =>
          rw [if_pos (by omega)]
  · next hbehind =>
      rw [if_neg (by omega), List.getElem?_drop]
      congr 1
      omega

theorem occursAt_overwrite
    (fits : o + data.length ≤ code.length) :
    OccursAt data (overwrite code o data) o := by
  rw [occursAt_iff_getElem?]
  intro i hi
  rw [getElem?_overwrite fits, if_pos ⟨by omega, by omega⟩, Nat.add_sub_cancel_left,
    List.getElem?_eq_getElem hi]

/-- Bytes that no store covers stay. -/
theorem getElem?_put
    (fit : ∀ s ∈ stores, s.1 + s.2.length ≤ code.length)
    (outside : ∀ s ∈ stores, x < s.1 ∨ s.1 + s.2.length ≤ x) :
    (put code stores)[x]? = code[x]? := by
  induction stores generalizing code with
  | nil =>
      rfl
  | cons s rest ih =>
      obtain ⟨hfit, hrest⟩ := List.forall_mem_cons.1 fit
      obtain ⟨hout, houts⟩ := List.forall_mem_cons.1 outside
      rw [put, List.foldl_cons, ← put, ih (by rwa [length_overwrite hfit]) houts, getElem?_overwrite hfit,
        if_neg (by omega)]

/-- The data of stores that do not overlap is in the code when all of them are done. -/
theorem occursAt_put
    (fit : ∀ s ∈ stores, s.1 + s.2.length ≤ code.length)
    (apart : stores.Pairwise fun s t => s.1 + s.2.length ≤ t.1) :
    ∀ s ∈ stores, OccursAt s.2 (put code stores) s.1 := by
  induction stores generalizing code with
  | nil =>
      intro s hs
      cases hs
  | cons first rest ih =>
      obtain ⟨hfit, hrest⟩ := List.forall_mem_cons.1 fit
      obtain ⟨hbehind, hapart⟩ := List.pairwise_cons.1 apart
      rw [← length_overwrite hfit] at hrest
      intro s hs
      rw [put, List.foldl_cons, ← put]
      rcases List.mem_cons.1 hs with rfl | hs
      · refine (occursAt_overwrite hfit).congr fun x _ hx => getElem?_put hrest fun t ht => ?_
        exact .inl (Nat.lt_of_lt_of_le hx (hbehind t ht))
      · exact ih hrest hapart s hs

/-! ## Filled code -/

/-- Code with data in the place of all occurrences of a marker, and as it was elsewhere; the occurrences are
counted. -/
structure Fills (marker code : List UInt8) (Belongs : Nat → List UInt8 → Prop) (count : Nat)
    (filled : List UInt8) : Prop where
  count_eq : count = (List.range code.length).countP (OccursAt marker code ·)
  length_eq : filled.length = code.length
  put : ∀ o, OccursAt marker code o →
    ∃ data, Belongs o data ∧ data.length = marker.length ∧ OccursAt data filled o
  kept : ∀ x, (∀ o, OccursAt marker code o → x < o ∨ o + marker.length ≤ x) → filled[x]? = code[x]?

/-- **Stores at all offsets that a scan finds** fill the code. -/
theorem fills_put
    {Belongs : Nat → List UInt8 → Prop}
    (hpattern : pattern ≠ [])
    (h : Unbordered pattern)
    (hoffsets : stores.map (·.1) = occurrences pattern code)
    (hdata : ∀ s ∈ stores, Belongs s.1 s.2 ∧ s.2.length = pattern.length) :
    Fills pattern code Belongs stores.length (put code stores) := by
  have hat (s : Nat × List UInt8) (hs : s ∈ stores) : OccursAt pattern code s.1 := by
    rw [← mem_occurrences_iff hpattern h, ← hoffsets]
    exact List.mem_map_of_mem hs
  have hfit (s : Nat × List UInt8) (hs : s ∈ stores) : s.1 + s.2.length ≤ code.length := by
    rw [(hdata s hs).2]
    exact (hat s hs).fits hpattern
  have hapart : stores.Pairwise fun s t => s.1 + s.2.length ≤ t.1 := by
    have hsorted : (occurrences pattern code).Pairwise (· < ·) := pairwise_occurrences h
    rw [← hoffsets, List.pairwise_map] at hsorted
    refine hsorted.imp_of_mem fun {s t} hs ht hlt => ?_
    rw [(hdata s hs).2]
    exact h.apart (hat s hs) (hat t ht) hlt
  refine ⟨?_, length_foldl_overwrite code stores hfit, fun o ho => ?_, fun x hx => ?_⟩
  · rw [← length_occurrences h, ← hoffsets, List.length_map]
  · rw [← mem_occurrences_iff hpattern h, ← hoffsets] at ho
    obtain ⟨s, hs, rfl⟩ := List.mem_map.1 ho
    exact ⟨s.2, (hdata s hs).1, (hdata s hs).2, occursAt_put hfit hapart s hs⟩
  · refine getElem?_put hfit fun s hs => ?_
    rw [(hdata s hs).2]
    exact hx s.1 (hat s hs)

/-! ## Displacements -/

/-- The distance between two addresses fits in 32 signed bits. -/
def InReach (origin target : Nat) : Prop :=
  -2 ^ 31 ≤ (target : Int) - origin ∧ (target : Int) - origin < 2 ^ 31

instance (origin target : Nat) : Decidable (InReach origin target) :=
  inferInstanceAs (Decidable (_ ∧ _))

theorem exists_displacement_iff
    {origin : Nat}
    (horigin : origin < 2 ^ 63)
    (htarget : target < 2 ^ 63) :
    (∃ data, displacement origin target = .ok data) ↔ InReach origin target := by
  constructor
  · rintro ⟨data, hdata⟩
    by_contra hfar
    rw [InReach, ← distance_eq horigin htarget] at hfar
    cases hdata.symm.trans (displacement_eq_error.2 ⟨hfar, rfl⟩)
  · rintro ⟨hdown, hup⟩
    exact exists_displacement horigin htarget (by omega) (by omega)

/-- What is stored for an operand leads from behind it to the target. -/
theorem operand_leads
    {origin : Nat}
    (horigin : origin < 2 ^ 63)
    (htarget : target < 2 ^ 63)
    (h : displacement origin target = .ok data) :
    (origin : Int) + signedLittleEndian data = target := by
  rw [signedLittleEndian_displacement h, distance_eq horigin htarget]
  omega

/-! ## In place -/

theorem run_stores
    (code : List UInt8) (stores : List (Nat × List UInt8)) (count : Nat) :
    (do
      stores.forM fun s => modify (overwrite · s.1 s.2)
      return count : ExceptT Fault (StateM (List UInt8)) Nat).run.run code =
        (.ok count, put code stores) := by
  induction stores generalizing code with
  | nil =>
      rfl
  | cons s rest ih =>
      exact ih (overwrite code s.1 s.2)

/-- **In place** the same is filled as in a copy, and a refusal leaves everything as it was. -/
theorem run_fillRelative
    (code : List UInt8) (base index target : Nat) :
    (fillRelative base index target).run.run code =
      match replaceRelative code base index target with
      | .ok (count, filled) => (.ok count, filled)
      | .error f => (.error f, code) := by
  have hread : (fillRelative base index target).run.run code =
      (do
        let stores ← liftM (displacements base target (occurrences (relativeSlot index) code))
        stores.forM fun s => modify (overwrite · s.1 s.2)
        return stores.length : ExceptT Fault (StateM (List UInt8)) Nat).run.run code := rfl
  rw [hread, replaceRelative]
  cases displacements base target (occurrences (relativeSlot index) code) with
  | error f =>
      rfl
  | ok stores =>
      exact run_stores code stores stores.length

/-! ## Markers -/

theorem fills_replaceAbsolute
    (h : Unbordered (absoluteSlot index))
    (code : List UInt8) (value : Nat) :
    Fills (absoluteSlot index) code (fun _ data => data = littleEndianBytes 8 value)
      (replaceAbsolute code index value).1 (replaceAbsolute code index value).2 := by
  let stores := (occurrences (absoluteSlot index) code).map fun o => (o, littleEndianBytes 8 value)
  have hoffsets : stores.map (·.1) = occurrences (absoluteSlot index) code := by
    rw [List.map_map]
    exact List.map_id _
  have hfills : Fills (absoluteSlot index) code (fun _ data => data = littleEndianBytes 8 value)
      stores.length (put code stores) := by
    refine fills_put absoluteSlot_ne_nil h hoffsets fun s hs => ?_
    obtain ⟨o, -, rfl⟩ := List.mem_map.1 hs
    exact ⟨rfl, by simp only [absoluteSlot, length_littleEndianBytes]⟩
  rw [List.length_map, ← replaceAbsolute_snd] at hfills
  exact hfills

section Relative

variable
  (h : Unbordered (relativeSlot index))
  (htarget : target < 2 ^ 63)
  (haddresses : ∀ o, OccursAt (relativeSlot index) code o → base + o + 4 < 2 ^ 63)

include h htarget haddresses

theorem fills_replaceRelative
    {count : Nat} {filled : List UInt8}
    (hfilled : replaceRelative code base index target = .ok (count, filled)) :
    Fills (relativeSlot index) code
      (fun o operand => ((base + o + 4 : Nat) : Int) + signedLittleEndian operand = target) count filled := by
  obtain ⟨stores, hstores, -⟩ := put_of_replaceRelative hfilled
  cases hfilled.symm.trans (replaceRelative_of_displacements hstores)
  obtain ⟨hoffsets, hdata⟩ := displacements_eq_ok hstores
  refine fills_put relativeSlot_ne_nil h hoffsets fun s hs => ?_
  have hoccurs : OccursAt (relativeSlot index) code s.1 := by
    rw [← mem_occurrences_iff relativeSlot_ne_nil h, ← hoffsets]
    exact List.mem_map_of_mem hs
  refine ⟨operand_leads (haddresses s.1 hoccurs) htarget (hdata s hs), ?_⟩
  rw [length_displacement (hdata s hs), relativeSlot, length_littleEndianBytes]

/-- A refusal names the first marker that is out of reach. -/
theorem first_of_replaceRelative_eq_error
    {f : Fault}
    (hfault : replaceRelative code base index target = .error f) :
    ∃ o, OccursAt (relativeSlot index) code o ∧ ¬InReach (base + o + 4) target ∧
      f = .outOfRange (base + o + 4) target ∧
      ∀ earlier < o, OccursAt (relativeSlot index) code earlier → InReach (base + earlier + 4) target := by
  rw [replaceRelative] at hfault
  split at hfault
  · next hstores =>
      cases hfault
      obtain ⟨before, o, after, hoffsets, hfits, hfar⟩ := displacements_eq_error hstores
      have hsorted : (occurrences (relativeSlot index) code).Pairwise (· < ·) := pairwise_occurrences h
      rw [hoffsets, List.pairwise_append, List.pairwise_cons] at hsorted
      obtain ⟨-, ⟨hbehind, -⟩, -⟩ := hsorted
      have hat (o' : Nat) : OccursAt (relativeSlot index) code o' ↔ o' ∈ before ++ o :: after := by
        rw [← hoffsets, mem_occurrences_iff relativeSlot_ne_nil h]
      have ho : OccursAt (relativeSlot index) code o :=
        (hat o).2 (List.mem_append_right before List.mem_cons_self)
      refine ⟨o, ho, fun hreach => ?_, (displacement_eq_error.1 hfar).2, fun earlier hlt hoccurs => ?_⟩
      · obtain ⟨data, hdata⟩ := (exists_displacement_iff (haddresses o ho) htarget).2 hreach
        cases hdata.symm.trans hfar
      · refine (exists_displacement_iff (haddresses earlier hoccurs) htarget).1 (hfits earlier ?_)
        rcases List.mem_append.1 ((hat earlier).1 hoccurs) with hmem | hmem
        · exact hmem
        · rcases List.mem_cons.1 hmem with rfl | hmem
          · exact absurd hlt (Nat.lt_irrefl _)
          · exact absurd (hbehind earlier hmem) (Nat.lt_asymm hlt)
  · cases hfault

theorem exists_replaceRelative_iff :
    (∃ count filled, replaceRelative code base index target = .ok (count, filled)) ↔
      ∀ o, OccursAt (relativeSlot index) code o → InReach (base + o + 4) target := by
  constructor
  · rintro ⟨count, filled, hfilled⟩ o ho
    obtain ⟨stores, hstores, -⟩ := put_of_replaceRelative hfilled
    obtain ⟨hoffsets, hdata⟩ := displacements_eq_ok hstores
    have hmem := (mem_occurrences_iff relativeSlot_ne_nil h).2 ho
    rw [← hoffsets] at hmem
    obtain ⟨s, hs, rfl⟩ := List.mem_map.1 hmem
    exact (exists_displacement_iff (haddresses s.1 ho) htarget).1 ⟨s.2, hdata s hs⟩
  · intro hreach
    cases hfilled : replaceRelative code base index target with
    | ok filled =>
        exact ⟨filled.1, filled.2, rfl⟩
    | error f =>
        obtain ⟨o, ho, hfar, -⟩ := first_of_replaceRelative_eq_error h htarget haddresses hfilled
        exact absurd (hreach o ho) hfar

end Relative

/-- Which slots have a marker without a border: all but one, whose first byte is also the last. -/
theorem unbordered_slot_iff :
    ∀ index < 256,
      (Unbordered (relativeSlot index) ↔ index ≠ 0x31) ∧ (Unbordered (absoluteSlot index) ↔ index ≠ 0x31) := by
  decide +kernel

/-- **Markers are filled.**  Of a slot whose marker is unbordered, in code anywhere below `2 ^ 63`, the
displacements to a target are put exactly if the distance to it from behind every occurrence of the marker
fits in 32 signed bits.  Then each occurrence holds the displacement that leads from behind it to the
target, all other bytes are as they were, and the answer is the number of occurrences.  Otherwise the fault
is that of the first occurrence that is out of reach, and the buffer with the code is as it was, even if
only a later occurrence is out of reach.  An absolute value is put for every occurrence of its marker and
nowhere else. -/
theorem markers_are_filled
    (code : List UInt8) (base index target value : Nat) :
    (Unbordered (relativeSlot index) → target < 2 ^ 63 →
      (∀ o, OccursAt (relativeSlot index) code o → base + o + 4 < 2 ^ 63) →
      ((∃ count filled, replaceRelative code base index target = .ok (count, filled)) ↔
        ∀ o, OccursAt (relativeSlot index) code o → InReach (base + o + 4) target) ∧
      (∀ count filled, replaceRelative code base index target = .ok (count, filled) →
        (fillRelative base index target).run.run code = (.ok count, filled) ∧
        Fills (relativeSlot index) code
          (fun o operand => ((base + o + 4 : Nat) : Int) + signedLittleEndian operand = target)
          count filled) ∧
      ∀ f, replaceRelative code base index target = .error f →
        (fillRelative base index target).run.run code = (.error f, code) ∧
        ∃ o, OccursAt (relativeSlot index) code o ∧ ¬InReach (base + o + 4) target ∧
          f = .outOfRange (base + o + 4) target ∧
          ∀ earlier < o, OccursAt (relativeSlot index) code earlier →
            InReach (base + earlier + 4) target) ∧
    (Unbordered (absoluteSlot index) →
      Fills (absoluteSlot index) code (fun _ data => data = littleEndianBytes 8 value)
        (replaceAbsolute code index value).1 (replaceAbsolute code index value).2) := by
  refine ⟨fun h htarget haddresses => ⟨?_, fun count filled hfilled => ?_, fun f hfault => ?_⟩,
    fun h => fills_replaceAbsolute h code value⟩
  · exact exists_replaceRelative_iff h htarget haddresses
  · refine ⟨?_, fills_replaceRelative h htarget haddresses hfilled⟩
    rw [run_fillRelative, hfilled]
  · refine ⟨?_, first_of_replaceRelative_eq_error h htarget haddresses hfault⟩
    rw [run_fillRelative, hfault]

/-- Two operands and an absolute value of one slot: from a place that both operands reach they are filled;
if only the second is out of reach, the first is not filled either. -/
theorem markers_are_filled_or_none :
    let code : List UInt8 :=
      0x85 :: relativeSlot 0x85 ++ 0x90 :: relativeSlot 0x85 ++ absoluteSlot 0x85
    let base := 0x10000000000
    let far := base + 5 - 2 ^ 31
    (∃ filled, (fillRelative base 0x85 (base + 10)).run.run code = (.ok 2, filled) ∧
      ∃ operand, ((base + 5 : Nat) : Int) + signedLittleEndian operand = (base + 10 : Nat) ∧
        OccursAt operand filled 1) ∧
    InReach (base + 5) far ∧
    (∃ f, (fillRelative base 0x85 far).run.run code = (.error f, code)) ∧
    (replaceAbsolute code 0x85 7).1 = 1 := by
  intro code base far
  obtain ⟨hrelative, habsolute⟩ := unbordered_slot_iff 0x85 (by decide)
  have hfits (o : Nat) (ho : OccursAt (relativeSlot 0x85) code o) : o ≤ 14 :=
    Nat.le_of_add_le_add_right (ho.fits relativeSlot_ne_nil)
  have haddresses (o : Nat) (ho : OccursAt (relativeSlot 0x85) code o) : base + o + 4 < 2 ^ 63 := by
    have hbound := hfits o ho
    omega
  obtain ⟨htwo, hone⟩ := markers_are_filled code base 0x85 (base + 10) 7
  obtain ⟨hnear, hfilled, -⟩ := htwo (hrelative.2 (by decide)) (by decide) haddresses
  obtain ⟨hnone, -⟩ := markers_are_filled code base 0x85 far 7
  obtain ⟨hfar, -, hleft⟩ := hnone (hrelative.2 (by decide)) (by decide) haddresses
  refine ⟨?_, by decide, ?_, ?_⟩
  · obtain ⟨count, filled, hdone⟩ := hnear.2 fun o ho => by
      have hbound := hfits o ho
      constructor <;> omega
    obtain ⟨hplace, hfills⟩ := hfilled count filled hdone
    have hcount : count = 2 := hfills.count_eq.trans (by decide +kernel)
    obtain ⟨operand, hleads, -, hthere⟩ := hfills.put 1 (by decide)
    exact ⟨filled, hcount ▸ hplace, operand, hleads, hthere⟩
  · cases hdone : replaceRelative code base 0x85 far with
    | ok filled =>
        have hsecond := hfar.1 ⟨filled.1, filled.2, hdone⟩ 6 (by decide)
        exact absurd hsecond (by decide)
    | error f =>
        exact ⟨f, (hleft f hdone).1⟩
  · exact (hone (habsolute.2 (by decide))).count_eq.trans (by decide +kernel)

end CallProfiler.Code
