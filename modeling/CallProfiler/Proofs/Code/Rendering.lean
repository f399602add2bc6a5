import CallProfiler.Proofs.Code.Moving
import CallProfiler.Proofs.Code.Scanning
import Mathlib.Data.List.Infix

/-!
# What trampolines hold

A trampoline is the template with values in its slots and a displacement for the operand of its call.
The slots are filled by one scan after the other, and each scan reads what was put before.  The bytes
around a slot occur in no marker, so that no value is misread together with its neighbours.  But a value
that is itself the marker of a slot filled later, or that holds the four bytes of the operand's marker, is
taken for a slot and overwritten.

**Main statements.**
* `Trampoline.replaceAbsolute_codeWith`, `Trampoline.replaceRelative_codeWith`: one scan.
* `Trampoline.render_fills_slots`: what a trampoline holds.
* `Trampoline.render_overwrites_id`: a value that is taken for a slot.
* `Trampoline.render_calls`: the call, whatever is taken for a slot.
-/

namespace CallProfiler.Code.Trampoline

open Bytes

/-! ## The slots of the template -/

/-- The marker of the operand of the call. -/
abbrev operandSlot : List UInt8 := relativeSlot 0x85

def markers : List (List UInt8) :=
  [absoluteSlot 1, absoluteSlot 2, absoluteSlot 3, absoluteSlot 4, operandSlot]

/-- What comes before the call, with the values in it. -/
def beforeCall (interceptor id onEnter : List UInt8) : List (List UInt8 × List UInt8) :=
  [(saveArguments ++ timestamp ++ [0x48, 0xBF], interceptor), ([0x48, 0xB9], id),
    ([0x48, 0xB8], onEnter)]

/-- The call up to its operand. -/
def call : List UInt8 := [0xFF, 0xD0] ++ restoreArguments ++ [0x48, 0x83, 0xC4, 0x08, 0xE8]

/-- What comes behind the call, with the values in it. -/
def behindCall (interceptor onExit : List UInt8) : List (List UInt8 × List UInt8) :=
  [(saveResults ++ timestamp ++ [0x48, 0xBF], interceptor),
    ([0x48, 0x8D, 0x74, 0x24, 0x28, 0x48, 0xB8], onExit)]

/-- What comes behind the last value. -/
def ending : List UInt8 := [0xFF, 0xD0, 0x49, 0x89, 0xC3] ++ resume

/-- The code of a trampoline with these bytes in its slots. -/
def codeWith (interceptor id onEnter operand onExit : List UInt8) : List UInt8 :=
  weave (beforeCall interceptor id onEnter ++ (call, operand) :: behindCall interceptor onExit) ending

/-- Where the operand of the call ends. -/
def callEnd : Nat :=
  (saveArguments ++ timestamp ++ callEnter ++ restoreArguments ++ callBody).length

/-- The template is the code with markers in its slots. -/
theorem template_eq :
    template =
      codeWith (absoluteSlot 1) (absoluteSlot 2) (absoluteSlot 3) operandSlot (absoluteSlot 4) := by
  decide +kernel

variable {pattern interceptor id onEnter operand onExit : List UInt8} {index value : Nat}

instance (pattern part : List UInt8) : Decidable (Insulates pattern part) :=
  decidable_of_iff
    ((∃ x ∈ part.head?, x ∉ pattern) ∧ (∃ x ∈ part.getLast?, x ∉ pattern) ∧ ¬ pattern <:+: part)
    ⟨fun ⟨first, last, lacks⟩ => ⟨first, last, lacks⟩, fun h => ⟨h.first, h.last, h.lacks⟩⟩

/-- The bytes around the slots occur in no marker. -/
theorem insulates_parts
    (h : pattern ∈ markers) :
    (∀ part ∈ beforeCall interceptor id onEnter ++ (call, operand) :: behindCall interceptor onExit,
      Insulates pattern part.1) ∧ Insulates pattern ending := by
  have hfixed : ∀ pattern ∈ markers,
      (∀ part ∈ (beforeCall [] [] [] ++ (call, []) :: behindCall [] []).map (·.1),
        Insulates pattern part) ∧ Insulates pattern ending := by
    decide +kernel
  obtain ⟨hparts, hending⟩ := hfixed pattern h
  exact ⟨fun part hpart => hparts part.1 (List.mem_map_of_mem (f := fun part => part.1) hpart), hending⟩

theorem length_beforeCall
    (hinterceptor : interceptor.length = 8)
    (hid : id.length = 8)
    (honEnter : onEnter.length = 8) :
    (weave (beforeCall interceptor id onEnter) call).length + 4 = callEnd := by
  simp only [beforeCall, weave, call, callEnd, callEnter, callBody, absoluteSlot, relativeSlot,
    List.foldr_cons, List.foldr_nil, List.length_append, List.length_cons, List.length_nil,
    length_littleEndianBytes, hinterceptor, hid, honEnter]
  omega

theorem length_codeWith :
    (codeWith interceptor id onEnter operand onExit).length =
      (codeWith [] [] [] [] []).length + 2 * interceptor.length + id.length + onEnter.length +
        operand.length + onExit.length := by
  simp only [codeWith, beforeCall, behindCall, weave, List.cons_append, List.nil_append, List.foldr_cons,
    List.foldr_nil, List.length_append, List.length_cons]
  omega

/-! ## One scan -/

/-- **A scan for an absolute marker** fills the slots one by one. -/
theorem replaceAbsolute_codeWith
    (h : absoluteSlot index ∈ markers) :
    (replaceAbsolute (codeWith interceptor id onEnter operand onExit) index value).2 =
      codeWith (replaceAbsolute interceptor index value).2 (replaceAbsolute id index value).2
        (replaceAbsolute onEnter index value).2 (replaceAbsolute operand index value).2
        (replaceAbsolute onExit index value).2 := by
  obtain ⟨hparts, hending⟩ := insulates_parts h
  exact replaceAbsolute_weave hparts hending

/-- **The scan for the operand's marker** finds the operand, if no other slot holds the marker. -/
theorem replaceRelative_codeWith
    (base entry : Nat)
    (hinterceptor : interceptor.length = 8 ∧ ¬ operandSlot <:+: interceptor)
    (hid : id.length = 8 ∧ ¬ operandSlot <:+: id)
    (honEnter : onEnter.length = 8 ∧ ¬ operandSlot <:+: onEnter)
    (honExit : ¬ operandSlot <:+: onExit) :
    replaceRelative (codeWith interceptor id onEnter operandSlot onExit) base 0x85 entry =
      (displacement (base + callEnd) entry).map fun operand =>
        (1, codeWith interceptor id onEnter operand onExit) := by
  let front := weave (beforeCall interceptor id onEnter) call
  let back := weave (behindCall interceptor onExit) ending
  have hcode (operand : List UInt8) :
      codeWith interceptor id onEnter operand onExit = front ++ (operand ++ back) :=
    weave_append _ _ _ _ _
  have hfound : occurrences operandSlot (codeWith interceptor id onEnter operandSlot onExit) =
      [front.length] := by
    have hmarker : operandSlot ∈ markers := by
      decide
    obtain ⟨hparts, hending⟩ := insulates_parts hmarker
    refine occurrences_weave_single (by decide) hparts hending ?_
    simp [beforeCall, behindCall, hinterceptor.2, hid.2, honEnter.2, honExit]
  have hend : base + front.length + 4 = base + callEnd := by
    rw [Nat.add_assoc, length_beforeCall hinterceptor.1 hid.1 honEnter.1]
  rw [replaceRelative, hfound, displacements, hend]
  cases hdata : displacement (base + callEnd) entry with
  | error f =>
      rfl
  | ok data =>
      have hoperand : put (operandSlot ++ back) [(0, data)] = data ++ back := by
        simp [put, overwrite, length_displacement hdata, relativeSlot]
      have hput : put (codeWith interceptor id onEnter operandSlot onExit) [(front.length, data)] =
          codeWith interceptor id onEnter data onExit := by
        rw [hcode operandSlot, hcode data, ← hoperand]
        exact put_append_right front (operandSlot ++ back) [(0, data)]
      exact congrArg (fun code => Except.ok (1, code)) hput

/-! ## All scans -/

/-- What a later scan does not take for a marker: the value is none of the markers still to be looked for,
and does not hold that of the operand. -/
structure Plain (value : Nat) (later : List Nat) : Prop where
  differs : ∀ index ∈ later, littleEndianBytes 8 value ≠ absoluteSlot index
  lacks : ¬ operandSlot <:+: littleEndianBytes 8 value

namespace Plain

variable {later : List Nat}

theorem unchanged
    {filled : Nat}
    (h : Plain filled later)
    (hindex : index ∈ later) :
    (replaceAbsolute (littleEndianBytes 8 filled) index value).2 = littleEndianBytes 8 filled :=
  replaceAbsolute_other (Nat.le_of_eq (length_littleEndianBytes 8 filled)) (h.differs index hindex)

theorem slot
    (h : Plain value later) :
    (littleEndianBytes 8 value).length = 8 ∧ ¬ operandSlot <:+: littleEndianBytes 8 value :=
  ⟨length_littleEndianBytes 8 value, h.lacks⟩

end Plain

theorem replaceAbsolute_operandSlot
    (index value : Nat) :
    (replaceAbsolute operandSlot index value).2 = operandSlot := by
  have hlength : operandSlot.length = 4 := length_littleEndianBytes 4 _
  refine replaceAbsolute_eq_self fun hfound => ?_
  have hfits := hfound.length_le
  rw [absoluteSlot, length_littleEndianBytes] at hfits
  omega

/-- A marker that is not looked for. -/
theorem replaceAbsolute_otherSlot
    {other : Nat}
    (h : absoluteSlot other ≠ absoluteSlot index) :
    (replaceAbsolute (absoluteSlot other) index value).2 = absoluteSlot other :=
  replaceAbsolute_other (Nat.le_of_eq (length_littleEndianBytes 8 _)) h

theorem render_eq
    (base : Nat) {id : Nat} {hooks : Hooks} (entry : Nat)
    (hinterceptor : Plain hooks.interceptor [2, 3, 4])
    (hid : Plain id [3, 4])
    (honEnter : Plain hooks.onEnter [4])
    (honExit : Plain hooks.onExit []) :
    render base id hooks entry =
      (displacement (base + callEnd) entry).map fun operand =>
        codeWith (littleEndianBytes 8 hooks.interceptor) (littleEndianBytes 8 id)
          (littleEndianBytes 8 hooks.onEnter) operand (littleEndianBytes 8 hooks.onExit) ++
        List.replicate (size - template.length) filler := by
  have hscans : (replaceAbsolute (replaceAbsolute (replaceAbsolute (replaceAbsolute template 1
      hooks.interceptor).2 2 id).2 3 hooks.onEnter).2 4 hooks.onExit).2 =
      codeWith (littleEndianBytes 8 hooks.interceptor) (littleEndianBytes 8 id)
        (littleEndianBytes 8 hooks.onEnter) operandSlot (littleEndianBytes 8 hooks.onExit) := by
    simp (disch := decide) only [template_eq, replaceAbsolute_codeWith, replaceAbsolute_marker,
      replaceAbsolute_otherSlot, replaceAbsolute_operandSlot, hinterceptor.unchanged, hid.unchanged,
      honEnter.unchanged]
  rw [render, hscans,
    replaceRelative_codeWith base entry hinterceptor.slot hid.slot honEnter.slot honExit.lacks]
  cases hdata : displacement (base + callEnd) entry with
  | error f =>
      rfl
  | ok data =>
      have hlength : (codeWith (littleEndianBytes 8 hooks.interceptor) (littleEndianBytes 8 id)
          (littleEndianBytes 8 hooks.onEnter) data (littleEndianBytes 8 hooks.onExit)).length =
          template.length := by
        rw [template_eq]
        refine length_codeWith.trans (Eq.trans ?_ length_codeWith.symm)
        simp only [absoluteSlot, relativeSlot, length_littleEndianBytes, length_displacement hdata]
      simp only [Except.map, hlength]

/-- **What a trampoline holds.**  The template is `Trampoline.codeWith` of its markers.  A trampoline is
refused exactly if the distance from the address behind the operand of its call to `entry` does not fit
in 32 signed bits, and otherwise is the same code with the values: the interceptor in two slots, the
identity, the two hooks, each of them with the least significant byte first, and that distance for the
operand; fill bytes follow up to the size of all trampolines.  The values may be any that no scan takes
for a marker. -/
theorem render_fills_slots
    (base : Nat) {id : Nat} {hooks : Hooks} (entry : Nat)
    (hinterceptor : Plain hooks.interceptor [2, 3, 4])
    (hid : Plain id [3, 4])
    (honEnter : Plain hooks.onEnter [4])
    (honExit : Plain hooks.onExit []) :
    let d := distance (base + callEnd) entry
    template =
      codeWith (absoluteSlot 1) (absoluteSlot 2) (absoluteSlot 3) operandSlot (absoluteSlot 4) ∧
    (∀ f, render base id hooks entry = .error f ↔
      ¬(-2 ^ 31 ≤ d ∧ d < 2 ^ 31) ∧ f = .outOfRange (base + callEnd) entry) ∧
    ∀ code, render base id hooks entry = .ok code →
      ∃ operand : List UInt8,
        code =
          codeWith (littleEndianBytes 8 hooks.interceptor) (littleEndianBytes 8 id)
            (littleEndianBytes 8 hooks.onEnter) operand (littleEndianBytes 8 hooks.onExit) ++
          List.replicate (size - template.length) filler ∧
        code.length = size ∧
        operand.length = 4 ∧
        signedLittleEndian operand = d := by
  intro d
  have hrender := render_eq base entry hinterceptor hid honEnter honExit
  refine ⟨template_eq, fun f => ?_, fun code hcode => ?_⟩
  · rw [hrender, map_eq_error]
    exact displacement_eq_error
  · have hlength := length_render hcode
    rw [hrender] at hcode
    obtain ⟨operand, hoperand, rfl⟩ := map_eq_ok.1 hcode
    exact ⟨operand, rfl, hlength, length_displacement hoperand, signedLittleEndian_displacement hoperand⟩

/-- An interceptor whose address holds all the bytes of the identity's marker but one, and a hook whose
address holds a part of that of the operand. -/
theorem render_fills_slots_close :
    let hooks : Hooks := ⟨0x3141592600000005, 0x5985000031415900, 0x4159⟩
    ∃ code, render 0x70000000 0x4242 hooks 0x70001000 = .ok code ∧
      ∃ operand : List UInt8,
        code =
          codeWith (littleEndianBytes 8 0x3141592600000005) (littleEndianBytes 8 0x4242)
            (littleEndianBytes 8 0x5985000031415900) operand (littleEndianBytes 8 0x4159) ++
          List.replicate (size - template.length) filler ∧
        signedLittleEndian operand = 0x1000 - callEnd := by
  intro hooks
  have hinterceptor : Plain hooks.interceptor [2, 3, 4] := ⟨by decide +kernel, by decide +kernel⟩
  have hid : Plain 0x4242 [3, 4] := ⟨by decide +kernel, by decide +kernel⟩
  have honEnter : Plain hooks.onEnter [4] := ⟨by decide +kernel, by decide +kernel⟩
  have honExit : Plain hooks.onExit [] := ⟨by decide +kernel, by decide +kernel⟩
  obtain ⟨-, hrefused, hrendered⟩ :=
    render_fills_slots 0x70000000 0x70001000 hinterceptor hid honEnter honExit
  have hdistance : distance (0x70000000 + callEnd) 0x70001000 = 0x1000 - callEnd := by
    decide +kernel
  have hfits : -2 ^ 31 ≤ distance (0x70000000 + callEnd) 0x70001000 ∧
      distance (0x70000000 + callEnd) 0x70001000 < 2 ^ 31 := by
    decide +kernel
  cases hcode : render 0x70000000 0x4242 hooks 0x70001000 with
  | error f =>
      exact absurd hfits ((hrefused f).1 hcode).1
  | ok code =>
      obtain ⟨operand, hslots, -, -, hoperand⟩ := hrendered code hcode
      exact ⟨code, rfl, operand, hslots, hoperand.trans hdistance⟩

/-- The identity holds the bytes of the operand's marker, and is overwritten with a displacement. -/
theorem render_overwrites_id :
    let hooks : Hooks := ⟨0x1000, 0x2000, 0x3000⟩
    let id := 0x31415985
    (template.drop 95).take 8 = absoluteSlot 2 ∧
      littleEndianBytes 8 id = [0x85, 0x59, 0x41, 0x31, 0x00, 0x00, 0x00, 0x00] ∧
      (render 0x31400000 id hooks 0x31415987).map (fun code => (code.drop 95).take 8) =
        .ok [0x24, 0x59, 0x01, 0x00, 0x00, 0x00, 0x00, 0x00] := by
  decide +kernel

/-! ## The call -/

/-- However the values are taken for markers, they stay as long as they are, and the operand is left to be
filled. -/
theorem exists_codeWith
    (id : Nat) (hooks : Hooks) :
    ∃ interceptor id' onEnter onExit : List UInt8,
      (replaceAbsolute (replaceAbsolute (replaceAbsolute (replaceAbsolute template 1
        hooks.interceptor).2 2 id).2 3 hooks.onEnter).2 4 hooks.onExit).2 =
          codeWith interceptor id' onEnter operandSlot onExit ∧
        interceptor.length = 8 ∧ id'.length = 8 ∧ onEnter.length = 8 := by
  simp (disch := decide) only [template_eq, replaceAbsolute_codeWith, replaceAbsolute_operandSlot]
  refine ⟨_, _, _, _, rfl, ?_⟩
  simp only [length_replaceAbsolute, absoluteSlot, length_littleEndianBytes, and_self]

/-- The call and the operand are scanned apart from what is around them. -/
theorem operand_of_replaceRelative
    {base entry count : Nat} {filled : List UInt8}
    (h : replaceRelative (codeWith interceptor id onEnter operandSlot onExit) base 0x85 entry =
      .ok (count, filled)) :
    ∃ front operand back, filled = front ++ (call ++ (operand ++ back)) ∧
      front.length = (weave (beforeCall interceptor id onEnter) []).length ∧
      displacement (base + front.length + call.length + 4) entry = .ok operand := by
  have hmarker : operandSlot ∈ markers := by
    decide
  obtain ⟨hparts, hending⟩ :
      (∀ part ∈ beforeCall interceptor id onEnter ++ (call, operandSlot) :: behindCall interceptor onExit,
        Insulates operandSlot part.1) ∧ Insulates operandSlot ending :=
    insulates_parts hmarker
  have hcall : Insulates operandSlot call :=
    hparts (call, operandSlot) (List.mem_append_right _ List.mem_cons_self)
  have hbehind : ∀ part ∈ behindCall interceptor onExit, Insulates operandSlot part.1 := by
    intro part hpart
    exact hparts part (List.mem_append_right (beforeCall interceptor id onEnter)
      (List.mem_cons_of_mem (call, operandSlot) hpart))
  rw [codeWith, weave_append, weave_last (beforeCall interceptor id onEnter), List.append_assoc] at h
  obtain ⟨_, _, front, others, hfront, hfromCall, rfl⟩ :=
    replaceRelative_append (hcall.apart_append _ _) h
  obtain ⟨_, _, same, others, hsame, hfromOperand, rfl⟩ :=
    replaceRelative_append (.inl hcall.last) hfromCall
  obtain rfl := replaceRelative_eq_self hcall.lacks hsame
  obtain ⟨_, _, operand, back, hoperand, -, rfl⟩ :=
    replaceRelative_append (Insulates.apart_weave hbehind hending _) hfromOperand
  have hlength := length_replaceRelative hfront
  refine ⟨front, operand, back, rfl, hlength, ?_⟩
  rw [hlength]
  exact replaceRelative_marker hoperand

/-- **The call of every trampoline** leads to the entry, whatever is reported and to whom. -/
theorem render_calls
    {base id entry : Nat} {hooks : Hooks} {code : List UInt8}
    (h : render base id hooks entry = .ok code) :
    ∃ front operand back, code = front ++ (0xE8 :: operand ++ back) ∧
      front.length + 5 = callEnd ∧ displacement (base + front.length + 5) entry = .ok operand := by
  obtain ⟨interceptor, id', onEnter, onExit, hscans, hinterceptor, hid, honEnter⟩ :=
    exists_codeWith id hooks
  rw [render, hscans] at h
  obtain ⟨⟨count, placed⟩, hplaced, rfl⟩ := map_eq_ok.1 h
  obtain ⟨front, operand, back, rfl, hfront, hoperand⟩ := operand_of_replaceRelative hplaced
  have hend := length_beforeCall hinterceptor hid honEnter
  rw [weave_last, List.length_append, ← hfront] at hend
  obtain ⟨start, hcall⟩ : ∃ start, call = start ++ [0xE8] :=
    ⟨[0xFF, 0xD0] ++ restoreArguments ++ [0x48, 0x83, 0xC4, 0x08], rfl⟩
  have hlength : (front ++ start).length + 5 = front.length + call.length + 4 := by
    rw [hcall, List.length_append, List.length_append, List.length_singleton]
    omega
  refine ⟨front ++ start, operand,
    back ++ List.replicate (size - (front ++ (call ++ (operand ++ back))).length) filler, ?_,
    hlength.trans hend, ?_⟩
  · simp [hcall]
  · rw [Nat.add_assoc, hlength, ← Nat.add_assoc, ← Nat.add_assoc]
    exact hoperand

end CallProfiler.Code.Trampoline
