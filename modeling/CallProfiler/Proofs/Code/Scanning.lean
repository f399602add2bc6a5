import CallProfiler.Proofs.Code.Lengths

/-!
# Markers between other bytes

A scan for a marker never finds one across a byte that does not occur in the marker: what it finds in the
code is what it finds on the two sides of that byte.  Code that is woven from fixed parts and the values
between them is therefore filled value by value, if the fixed parts begin and end with such bytes.
Nothing keeps a scan from finding a marker inside a value.

**Main statements.**
* `occurrences_append`: what is found in two pieces of code.
* `replaceRelative_append`: filling two pieces of code with displacements.
* `replaceAbsolute_weave`: filling woven code.
* `occurrences_weave`, `occurrences_weave_single`: what is found in woven code.
-/

namespace CallProfiler.Code

open Bytes

variable {pattern a b code : List UInt8} {x : UInt8} {index value : Nat}

/-! ## Stores -/

/-- The code with data in place of the bytes at each of the offsets. -/
def put (code : List UInt8) (stores : List (Nat × List UInt8)) : List UInt8 :=
  stores.foldl (fun code s => overwrite code s.1 s.2) code

/-- The stores that take place behind so many bytes. -/
def behind (count : Nat) (stores : List (Nat × List UInt8)) : List (Nat × List UInt8) :=
  stores.map fun s => (count + s.1, s.2)

theorem overwrite_append_left
    (b : List UInt8) {offset : Nat} {data : List UInt8}
    (fits : offset + data.length ≤ a.length) :
    overwrite (a ++ b) offset data = overwrite a offset data ++ b := by
  rw [overwrite, overwrite, List.take_append_of_le_length (by omega),
    List.drop_append_of_le_length fits, List.append_assoc, List.append_assoc, List.append_assoc]

theorem overwrite_append_right
    (a b : List UInt8) (offset : Nat) (data : List UInt8) :
    overwrite (a ++ b) (a.length + offset) data = a ++ overwrite b offset data := by
  rw [overwrite, overwrite, List.take_length_add_append, Nat.add_assoc, List.drop_length_add_append,
    List.append_assoc, List.append_assoc, List.append_assoc]

theorem put_append_left
    (b : List UInt8) {stores : List (Nat × List UInt8)}
    (fit : ∀ s ∈ stores, s.1 + s.2.length ≤ a.length) :
    put (a ++ b) stores = put a stores ++ b := by
  induction stores generalizing a with
  | nil =>
      rfl
  | cons s rest ih =>
      have hs := fit s List.mem_cons_self
      have hrest : put (overwrite a s.1 s.2 ++ b) rest = put (overwrite a s.1 s.2) rest ++ b := by
        refine ih fun q hq => ?_
        rw [length_overwrite hs]
        exact fit q (List.mem_cons_of_mem _ hq)
      rw [put, List.foldl_cons, overwrite_append_left b hs]
      exact hrest

theorem put_append_right
    (a b : List UInt8) (stores : List (Nat × List UInt8)) :
    put (a ++ b) (behind a.length stores) = a ++ put b stores := by
  induction stores generalizing b with
  | nil =>
      rfl
  | cons s rest ih =>
      rw [behind, List.map_cons, put, List.foldl_cons, overwrite_append_right]
      exact ih _

/-- Stores into one piece of code and into the piece behind it. -/
theorem put_append
    (b : List UInt8) {front back : List (Nat × List UInt8)}
    (fit : ∀ s ∈ front, s.1 + s.2.length ≤ a.length) :
    put (a ++ b) (front ++ behind a.length back) = put a front ++ put b back := by
  have hlength : (put a front).length = a.length := length_foldl_overwrite a front fit
  rw [put, List.foldl_append, ← put, ← put, put_append_left b fit, ← hlength, put_append_right]

theorem replaceAbsolute_snd
    (code : List UInt8) (index value : Nat) :
    (replaceAbsolute code index value).2 =
      put code ((occurrences (absoluteSlot index) code).map (·, littleEndianBytes 8 value)) := by
  rw [put, List.foldl_map]
  rfl

/-! ## Scans -/

theorem occurrencesFrom_add
    (pattern : List UInt8) (count offset skip : Nat) (code : List UInt8) :
    occurrencesFrom pattern (count + offset) skip code =
      (occurrencesFrom pattern offset skip code).map (count + ·) := by
  induction code generalizing offset skip with
  | nil =>
      rfl
  | cons c rest ih =>
      cases skip with
      | succ n =>
          exact ih (offset + 1) n
      | zero =>
          simp only [occurrencesFrom]
          split
          · rw [List.map_cons, ← ih, Nat.add_assoc]
          · rw [← ih, Nat.add_assoc]

theorem occurrencesFrom_covered
    {offset skip : Nat}
    (h : code.length ≤ skip) :
    occurrencesFrom pattern offset skip code = [] := by
  induction code generalizing offset skip with
  | nil =>
      rfl
  | cons c rest ih =>
      cases skip with
      | zero =>
          cases h
      | succ n =>
          exact ih (Nat.le_of_succ_le_succ h)

/-- A pattern without the byte `x` begins before it only if it ends before it. -/
theorem take_append_cons_eq_iff
    (hx : x ∉ pattern)
    (a b : List UInt8) :
    (a ++ x :: b).take pattern.length = pattern ↔ a.take pattern.length = pattern := by
  by_cases hfits : pattern.length ≤ a.length
  · rw [List.take_append_of_le_length hfits]
  · have hlonger : ¬ a.take pattern.length = pattern := by
      intro h
      have hlength := congrArg List.length h
      rw [List.length_take] at hlength
      omega
    refine iff_of_false ?_ hlonger
    intro h
    apply hx
    rw [← h, List.take_append, List.mem_append]
    obtain ⟨more, hmore⟩ := Nat.exists_eq_add_of_lt (Nat.lt_of_not_le hfits)
    right
    rw [hmore, show a.length + more + 1 - a.length = more + 1 by omega, List.take_succ_cons]
    exact List.mem_cons_self

theorem occurrencesFrom_append_cons
    (hpattern : pattern ≠ [])
    (hx : x ∉ pattern)
    (b : List UInt8) {offset skip : Nat}
    (hskip : skip ≤ a.length) :
    occurrencesFrom pattern offset skip (a ++ x :: b) =
      occurrencesFrom pattern offset skip a ++ occurrencesFrom pattern (offset + a.length + 1) 0 b := by
  induction a generalizing offset skip with
  | nil =>
      have hnone : ¬ (x :: b).take pattern.length = pattern := by
        intro h
        have hempty := (take_append_cons_eq_iff hx [] b).1 h
        rw [List.take_nil] at hempty
        exact hpattern hempty.symm
      rw [Nat.le_zero.1 hskip]
      simp [occurrencesFrom, hnone]
  | cons c rest ih =>
      have hoffset : offset + (c :: rest).length + 1 = offset + 1 + rest.length + 1 := by
        rw [List.length_cons]
        omega
      cases skip with
      | succ n =>
          rw [hoffset]
          exact ih (Nat.le_of_succ_le_succ hskip)
      | zero =>
          have hfound := take_append_cons_eq_iff hx (c :: rest) b
          rw [List.cons_append] at hfound
          rw [List.cons_append, occurrencesFrom, occurrencesFrom, hoffset]
          by_cases hhere : (c :: rest).take pattern.length = pattern
          · have hshort : pattern.length - 1 ≤ rest.length := by
              have hlength := congrArg List.length hhere
              rw [List.length_take, List.length_cons] at hlength
              omega
            rw [if_pos hhere, if_pos (hfound.2 hhere), ih hshort, List.cons_append]
          · rw [if_neg hhere, if_neg (mt hfound.1 hhere), ih (Nat.zero_le _)]

theorem occurrences_append_cons
    (hpattern : pattern ≠ [])
    (hx : x ∉ pattern)
    (a b : List UInt8) :
    occurrences pattern (a ++ x :: b) =
      occurrences pattern a ++ (occurrences pattern b).map (a.length + 1 + ·) := by
  rw [occurrences, occurrencesFrom_append_cons hpattern hx b (Nat.zero_le _), Nat.zero_add]
  exact congrArg _ (occurrencesFrom_add pattern (a.length + 1) 0 0 b)

/-- The last byte of the first piece or the first byte of the second one does not occur in the pattern. -/
def Apart (pattern a b : List UInt8) : Prop :=
  (∃ x ∈ a.getLast?, x ∉ pattern) ∨ ∃ x ∈ b.head?, x ∉ pattern

/-- **Two pieces of code** that are apart are scanned one by one. -/
theorem occurrences_append
    (hpattern : pattern ≠ [])
    (h : Apart pattern a b) :
    occurrences pattern (a ++ b) =
      occurrences pattern a ++ (occurrences pattern b).map (a.length + ·) := by
  rcases h with ⟨x, hlast, hx⟩ | ⟨x, hfirst, hx⟩
  · obtain ⟨front, rfl⟩ := List.getLast?_eq_some_iff.1 hlast
    have hfront := occurrences_append_cons hpattern hx front []
    rw [List.append_assoc, List.singleton_append, occurrences_append_cons hpattern hx, hfront,
      List.length_append]
    exact congrArg (· ++ _) (List.append_nil _).symm
  · obtain ⟨back, rfl⟩ := List.head?_eq_some_iff.1 hfirst
    have hback := occurrences_append_cons hpattern hx [] back
    rw [List.nil_append] at hback
    rw [occurrences_append_cons hpattern hx, hback]
    simp [occurrences, occurrencesFrom, Nat.add_assoc]

theorem infix_of_mem_occurrencesFrom
    {o offset skip : Nat}
    (h : o ∈ occurrencesFrom pattern offset skip code) :
    pattern <:+: code := by
  induction code generalizing offset skip with
  | nil =>
      cases h
  | cons c rest ih =>
      cases skip with
      | succ n =>
          exact (ih h).trans (List.suffix_cons c rest).isInfix
      | zero =>
          rw [occurrencesFrom] at h
          split at h
          · next hhere =>
              rw [← hhere]
              exact (List.take_prefix _ _).isInfix
          · exact (ih h).trans (List.suffix_cons c rest).isInfix

theorem occurrences_eq_nil
    (h : ¬ pattern <:+: code) :
    occurrences pattern code = [] :=
  List.eq_nil_iff_forall_not_mem.2 fun _ ho => h (infix_of_mem_occurrencesFrom ho)

theorem occurrences_self
    (hpattern : pattern ≠ []) :
    occurrences pattern pattern = [0] := by
  cases pattern with
  | nil =>
      exact absurd rfl hpattern
  | cons c rest =>
      have hrest : occurrencesFrom (c :: rest) 1 rest.length rest = [] :=
        occurrencesFrom_covered (Nat.le_refl _)
      rw [occurrences, occurrencesFrom, if_pos List.take_length]
      exact congrArg (0 :: ·) hrest

/-! ## Filling values -/

theorem absoluteSlot_ne_nil :
    absoluteSlot index ≠ [] :=
  List.ne_nil_of_length_pos (by rw [absoluteSlot, length_littleEndianBytes]; decide)

theorem replaceAbsolute_eq_self
    (h : ¬ absoluteSlot index <:+: code) :
    (replaceAbsolute code index value).2 = code := by
  rw [replaceAbsolute_snd, occurrences_eq_nil h]
  rfl

theorem replaceAbsolute_marker
    (index value : Nat) :
    (replaceAbsolute (absoluteSlot index) index value).2 = littleEndianBytes 8 value := by
  rw [replaceAbsolute_snd, occurrences_self absoluteSlot_ne_nil]
  simp [put, overwrite, absoluteSlot]

theorem replaceAbsolute_other
    (hlength : code.length ≤ 8)
    (hother : code ≠ absoluteSlot index) :
    (replaceAbsolute code index value).2 = code := by
  refine replaceAbsolute_eq_self fun hfound => hother ?_
  have hfits := hfound.length_le
  have hmarker : (absoluteSlot index).length = 8 := length_littleEndianBytes 8 _
  exact (hfound.eq_of_length (by omega)).symm

theorem replaceAbsolute_append
    (h : Apart (absoluteSlot index) a b) :
    (replaceAbsolute (a ++ b) index value).2 =
      (replaceAbsolute a index value).2 ++ (replaceAbsolute b index value).2 := by
  have hfit : ∀ s ∈ (occurrences (absoluteSlot index) a).map (·, littleEndianBytes 8 value),
      s.1 + s.2.length ≤ a.length := by
    intro s hs
    obtain ⟨o, ho, rfl⟩ := List.mem_map.1 hs
    simpa only [absoluteSlot, length_littleEndianBytes] using occurrences_fit o ho
  simp only [replaceAbsolute_snd]
  rw [← put_append b hfit, occurrences_append absoluteSlot_ne_nil h, behind, List.map_append,
    List.map_map, List.map_map]
  rfl

/-! ## Filling operands -/

theorem displacements_append
    {base target : Nat} {front back : List Nat} {stores : List (Nat × List UInt8)}
    (h : displacements base target (front ++ back) = .ok stores) :
    ∃ first more, displacements base target front = .ok first ∧
      displacements base target back = .ok more ∧ stores = first ++ more := by
  induction front generalizing stores with
  | nil =>
      exact ⟨[], stores, rfl, h, rfl⟩
  | cons offset rest ih =>
      rw [List.cons_append, displacements] at h
      obtain ⟨data, hdata, h⟩ := bind_eq_ok.1 h
      obtain ⟨others, hothers, h⟩ := bind_eq_ok.1 h
      cases h
      obtain ⟨first, more, hfirst, hmore, rfl⟩ := ih hothers
      refine ⟨(offset, data) :: first, more, ?_, hmore, rfl⟩
      rw [displacements, hdata, hfirst]
      rfl

/-- Offsets are counted from the front of the code. -/
theorem displacements_behind
    {base target count : Nat} {offsets : List Nat} {stores : List (Nat × List UInt8)}
    (h : displacements base target (offsets.map (count + ·)) = .ok stores) :
    ∃ later, displacements (base + count) target offsets = .ok later ∧ stores = behind count later := by
  induction offsets generalizing stores with
  | nil =>
      cases h
      exact ⟨[], rfl, rfl⟩
  | cons offset rest ih =>
      rw [List.map_cons, displacements, ← Nat.add_assoc base] at h
      obtain ⟨data, hdata, h⟩ := bind_eq_ok.1 h
      obtain ⟨others, hothers, h⟩ := bind_eq_ok.1 h
      cases h
      obtain ⟨later, hlater, rfl⟩ := ih hothers
      refine ⟨(offset, data) :: later, ?_, rfl⟩
      rw [displacements, hdata, hlater]
      rfl

theorem put_of_replaceRelative
    {base target count : Nat} {filled : List UInt8}
    (h : replaceRelative code base index target = .ok (count, filled)) :
    ∃ stores, displacements base target (occurrences (relativeSlot index) code) = .ok stores ∧
      filled = put code stores := by
  rw [replaceRelative] at h
  split at h
  · cases h
  · next stores hstores =>
      cases h
      exact ⟨stores, hstores, rfl⟩

theorem replaceRelative_of_displacements
    {base target : Nat} {stores : List (Nat × List UInt8)}
    (h : displacements base target (occurrences (relativeSlot index) code) = .ok stores) :
    replaceRelative code base index target = .ok (stores.length, put code stores) := by
  rw [replaceRelative, h]
  rfl

theorem relativeSlot_ne_nil :
    relativeSlot index ≠ [] :=
  List.ne_nil_of_length_pos (by rw [relativeSlot, length_littleEndianBytes]; decide)

/-- **Two pieces of code** that are apart are filled one by one, each with the displacements from where it
lies. -/
theorem replaceRelative_append
    {base target count : Nat} {filled : List UInt8}
    (hapart : Apart (relativeSlot index) a b)
    (h : replaceRelative (a ++ b) base index target = .ok (count, filled)) :
    ∃ n k front back, replaceRelative a base index target = .ok (n, front) ∧
      replaceRelative b (base + a.length) index target = .ok (k, back) ∧ filled = front ++ back := by
  obtain ⟨stores, hstores, rfl⟩ := put_of_replaceRelative h
  rw [occurrences_append relativeSlot_ne_nil hapart] at hstores
  obtain ⟨first, others, hfirst, hothers, rfl⟩ := displacements_append hstores
  obtain ⟨later, hlater, rfl⟩ := displacements_behind hothers
  refine ⟨_, _, _, _, replaceRelative_of_displacements hfirst, replaceRelative_of_displacements hlater,
    put_append b fun s hs => ?_⟩
  obtain ⟨hmem, hlength⟩ := displacements_at hfirst s hs
  have hfits := occurrences_fit s.1 hmem
  rwa [relativeSlot, length_littleEndianBytes, ← hlength] at hfits

theorem replaceRelative_marker
    {base target count : Nat} {filled : List UInt8}
    (h : replaceRelative (relativeSlot index) base index target = .ok (count, filled)) :
    displacement (base + 4) target = .ok filled := by
  obtain ⟨stores, hstores, rfl⟩ := put_of_replaceRelative h
  rw [occurrences_self relativeSlot_ne_nil, displacements] at hstores
  obtain ⟨data, hdata, hstores⟩ := bind_eq_ok.1 hstores
  cases hstores
  have hput : put (relativeSlot index) [(0, data)] = data := by
    simp [put, overwrite, length_displacement hdata, relativeSlot]
  rw [hput]
  exact hdata

theorem replaceRelative_eq_self
    {base target count : Nat} {filled : List UInt8}
    (hlacks : ¬ relativeSlot index <:+: code)
    (h : replaceRelative code base index target = .ok (count, filled)) :
    filled = code := by
  obtain ⟨stores, hstores, rfl⟩ := put_of_replaceRelative h
  rw [occurrences_eq_nil hlacks] at hstores
  cases hstores
  rfl

/-! ## Woven code -/

/-- Fixed parts with a value behind each of them, and what comes last. -/
def weave (parts : List (List UInt8 × List UInt8)) (last : List UInt8) : List UInt8 :=
  parts.foldr (fun part code => part.1 ++ (part.2 ++ code)) last

theorem weave_cons
    (part : List UInt8 × List UInt8) (parts : List (List UInt8 × List UInt8)) (last : List UInt8) :
    weave (part :: parts) last = part.1 ++ (part.2 ++ weave parts last) :=
  rfl

/-- The part begins and ends with bytes that do not occur in the pattern, and does not hold it. -/
structure Insulates (pattern part : List UInt8) : Prop where
  first : ∃ x ∈ part.head?, x ∉ pattern
  last : ∃ x ∈ part.getLast?, x ∉ pattern
  lacks : ¬ pattern <:+: part

namespace Insulates

variable {part last : List UInt8} {parts : List (List UInt8 × List UInt8)}

theorem apart_append
    (h : Insulates pattern part)
    (a b : List UInt8) :
    Apart pattern a (part ++ b) := by
  obtain ⟨x, hhead, hx⟩ := h.first
  exact .inr ⟨x, by rw [List.head?_append, hhead, Option.some_or]; rfl, hx⟩

/-- What is woven behind a value. -/
theorem apart_weave
    (hparts : ∀ part ∈ parts, Insulates pattern part.1)
    (hlast : Insulates pattern last)
    (a : List UInt8) :
    Apart pattern a (weave parts last) := by
  cases parts with
  | nil =>
      exact .inr hlast.first
  | cons part rest =>
      exact (hparts part List.mem_cons_self).apart_append a _

end Insulates

/-- **Filling woven code** fills its values. -/
theorem replaceAbsolute_weave
    {last : List UInt8} {parts : List (List UInt8 × List UInt8)}
    (hparts : ∀ part ∈ parts, Insulates (absoluteSlot index) part.1)
    (hlast : Insulates (absoluteSlot index) last) :
    (replaceAbsolute (weave parts last) index value).2 =
      weave (parts.map fun part => (part.1, (replaceAbsolute part.2 index value).2)) last := by
  induction parts with
  | nil =>
      exact replaceAbsolute_eq_self hlast.lacks
  | cons part rest ih =>
      obtain ⟨hpart, hrest⟩ := List.forall_mem_cons.1 hparts
      rw [weave_cons, replaceAbsolute_append (.inl hpart.last),
        replaceAbsolute_append (Insulates.apart_weave hrest hlast part.2), ih hrest,
        replaceAbsolute_eq_self hpart.lacks]
      rfl

theorem weave_last
    (parts : List (List UInt8 × List UInt8)) (last : List UInt8) :
    weave parts last = weave parts [] ++ last := by
  induction parts with
  | nil =>
      rfl
  | cons part rest ih =>
      rw [weave_cons, weave_cons, ih, List.append_assoc, List.append_assoc]

theorem weave_append
    (before after : List (List UInt8 × List UInt8)) (part value last : List UInt8) :
    weave (before ++ (part, value) :: after) last =
      weave before part ++ (value ++ weave after last) := by
  induction before with
  | nil =>
      rfl
  | cons first rest ih =>
      rw [List.cons_append, weave_cons, weave_cons, ih, List.append_assoc, List.append_assoc]

/-- What is found in one part with its value and behind them. -/
theorem occurrences_part
    {part last : List UInt8} {parts : List (List UInt8 × List UInt8)}
    (hpattern : pattern ≠ [])
    (hpart : Insulates pattern part)
    (hparts : ∀ part ∈ parts, Insulates pattern part.1)
    (hlast : Insulates pattern last)
    (value : List UInt8) :
    occurrences pattern (part ++ (value ++ weave parts last)) =
      (occurrences pattern value).map (part.length + ·) ++
        (occurrences pattern (weave parts last)).map (part.length + value.length + ·) := by
  rw [occurrences_append hpattern (.inl hpart.last), occurrences_eq_nil hpart.lacks,
    occurrences_append hpattern (Insulates.apart_weave hparts hlast value), List.nil_append,
    List.map_append, List.map_map]
  simp [Function.comp_def, Nat.add_assoc]

/-- A pattern that no value holds is not found. -/
theorem occurrences_weave
    {last : List UInt8} {parts : List (List UInt8 × List UInt8)}
    (hpattern : pattern ≠ [])
    (hparts : ∀ part ∈ parts, Insulates pattern part.1)
    (hlast : Insulates pattern last)
    (hvalues : ∀ part ∈ parts, ¬ pattern <:+: part.2) :
    occurrences pattern (weave parts last) = [] := by
  induction parts with
  | nil =>
      exact occurrences_eq_nil hlast.lacks
  | cons part rest ih =>
      obtain ⟨hpart, hrest⟩ := List.forall_mem_cons.1 hparts
      obtain ⟨hvalue, hmore⟩ := List.forall_mem_cons.1 hvalues
      rw [weave_cons, occurrences_part hpattern hpart hrest hlast, ih hrest hmore,
        occurrences_eq_nil hvalue]
      rfl

/-- A pattern that stands for one value, and that no other value holds, is found there. -/
theorem occurrences_weave_single
    {part last : List UInt8} {before after : List (List UInt8 × List UInt8)}
    (hpattern : pattern ≠ [])
    (hparts : ∀ q ∈ before ++ (part, pattern) :: after, Insulates pattern q.1)
    (hlast : Insulates pattern last)
    (hvalues : ∀ q ∈ before ++ after, ¬ pattern <:+: q.2) :
    occurrences pattern (weave (before ++ (part, pattern) :: after) last) =
      [(weave before part).length] := by
  induction before with
  | nil =>
      obtain ⟨hpart, hafter⟩ := List.forall_mem_cons.1 hparts
      rw [List.nil_append, weave_cons, occurrences_part hpattern hpart hafter hlast, occurrences_self hpattern,
        occurrences_weave hpattern hafter hlast hvalues]
      rfl
  | cons first rest ih =>
      rw [List.cons_append] at hparts hvalues
      obtain ⟨hfirst, hrest⟩ := List.forall_mem_cons.1 hparts
      obtain ⟨hvalue, hmore⟩ := List.forall_mem_cons.1 hvalues
      have hlength : (weave (first :: rest) part).length =
          first.1.length + first.2.length + (weave rest part).length := by
        simp [weave_cons, Nat.add_assoc]
      rw [List.cons_append, weave_cons, occurrences_part hpattern hfirst hrest hlast, ih hrest hmore,
        occurrences_eq_nil hvalue, hlength]
      rfl

end CallProfiler.Code
