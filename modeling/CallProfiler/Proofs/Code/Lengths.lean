import CallProfiler.Code.Patch
import CallProfiler.Proofs.Instruction.Runs

/-!
# Generated code fits the block asked for

Markers are replaced by values of their own length, so a rendered trampoline is as long as every
other; a moved instruction is not longer than the original.

**Main statements.**
* `Trampoline.length_render`: the length of a trampoline.
* `length_moveInstruction`, `length_moveRun`: moving does not lengthen instructions.
* `MovingPatch.length_code`: the code of a moving patch and the jump to it.
-/

namespace CallProfiler.Code

theorem bind_eq_ok
    {ε α β : Type} {x : Except ε α} {f : α → Except ε β} {b : β} :
    (x >>= f) = .ok b ↔ ∃ a, x = .ok a ∧ f a = .ok b := by
  cases x with
  | error e =>
      constructor
      · intro h
        cases h
      · rintro ⟨a, h, -⟩
        cases h
  | ok a =>
      constructor
      · intro h
        exact ⟨a, rfl, h⟩
      · rintro ⟨a', h, hf⟩
        cases h
        exact hf

theorem map_eq_ok
    {ε α β : Type} {x : Except ε α} {f : α → β} {b : β} :
    x.map f = .ok b ↔ ∃ a, x = .ok a ∧ f a = b := by
  cases x with
  | error e =>
      simp [Except.map]
  | ok a =>
      simp [Except.map]

/-! ## Markers -/

theorem length_overwrite
    {code data : List UInt8} {offset : Nat}
    (fits : offset + data.length ≤ code.length) :
    (overwrite code offset data).length = code.length := by
  simp only [overwrite, List.length_append, List.length_take, List.length_drop]
  omega

/-- A pattern that is found fits into the code. -/
theorem occurrencesFrom_fit
    {pattern code : List UInt8} {offset skip : Nat} :
    ∀ o ∈ occurrencesFrom pattern offset skip code, o + pattern.length ≤ offset + code.length := by
  induction code generalizing offset skip with
  | nil =>
      intro o ho
      cases ho
  | cons b rest ih =>
      intro o ho
      have hlater {skip' : Nat} (h : o ∈ occurrencesFrom pattern (offset + 1) skip' rest) :
          o + pattern.length ≤ offset + (b :: rest).length := by
        have hfit := ih o h
        simp only [List.length_cons]
        omega
      cases skip with
      | succ n =>
          exact hlater ho
      | zero =>
          simp only [occurrencesFrom] at ho
          split at ho
          · next hfound =>
              rcases List.mem_cons.mp ho with rfl | ho
              · have hlength := congrArg List.length hfound
                rw [List.length_take] at hlength
                omega
              · exact hlater ho
          · exact hlater ho

theorem occurrences_fit
    {pattern code : List UInt8} :
    ∀ o ∈ occurrences pattern code, o + pattern.length ≤ code.length := by
  intro o ho
  have hfit := occurrencesFrom_fit o ho
  omega

theorem length_foldl_overwrite
    (code : List UInt8) (stores : List (Nat × List UInt8))
    (fit : ∀ s ∈ stores, s.1 + s.2.length ≤ code.length) :
    (stores.foldl (fun code s => overwrite code s.1 s.2) code).length = code.length := by
  induction stores generalizing code with
  | nil =>
      rfl
  | cons s rest ih =>
      have hfirst := length_overwrite (fit s List.mem_cons_self)
      rw [List.foldl_cons, ih, hfirst]
      intro q hq
      rw [hfirst]
      exact fit q (List.mem_cons_of_mem _ hq)

@[simp] theorem length_replaceAbsolute
    (code : List UInt8) (index value : Nat) :
    (replaceAbsolute code index value).2.length = code.length := by
  have hstores := length_foldl_overwrite code
    ((occurrences (absoluteSlot index) code).map (·, Bytes.littleEndianBytes 8 value))
    (by
      intro s hs
      obtain ⟨o, ho, rfl⟩ := List.mem_map.mp hs
      have hfit := occurrences_fit o ho
      simpa only [absoluteSlot, Bytes.length_littleEndianBytes] using hfit)
  rw [List.foldl_map] at hstores
  exact hstores

theorem length_displacement?
    {origin target : Nat} {data : List UInt8}
    (h : displacement? origin target = some data) :
    data.length = 4 := by
  unfold displacement? at h
  simp only at h
  split at h
  · rw [← Option.some.inj h]
    exact Bytes.length_littleEndianBytes 4 _
  · cases h

theorem length_displacement
    {origin target : Nat} {data : List UInt8}
    (h : displacement origin target = .ok data) :
    data.length = 4 := by
  unfold displacement at h
  cases hfound : displacement? origin target with
  | none =>
      rw [hfound] at h
      cases h
  | some found =>
      rw [hfound] at h
      cases h
      exact length_displacement? hfound

theorem displacements_eq_ok
    {base target : Nat} {offsets : List Nat} {stores : List (Nat × List UInt8)}
    (h : displacements base target offsets = .ok stores) :
    stores.map (·.1) = offsets ∧ ∀ s ∈ stores, displacement (base + s.1 + 4) target = .ok s.2 := by
  induction offsets generalizing stores with
  | nil =>
      cases h
      exact ⟨rfl, fun s hs => by cases hs⟩
  | cons offset rest ih =>
      rw [displacements] at h
      obtain ⟨first, hfirst, h⟩ := bind_eq_ok.1 h
      obtain ⟨more, hmore, h⟩ := bind_eq_ok.1 h
      cases h
      obtain ⟨hoffsets, hdata⟩ := ih hmore
      exact ⟨congrArg (offset :: ·) hoffsets, List.forall_mem_cons.2 ⟨hfirst, hdata⟩⟩

theorem displacements_at
    {base target : Nat} {offsets : List Nat} {stores : List (Nat × List UInt8)}
    (h : displacements base target offsets = .ok stores) :
    ∀ s ∈ stores, s.1 ∈ offsets ∧ s.2.length = 4 := by
  obtain ⟨rfl, hdata⟩ := displacements_eq_ok h
  exact fun s hs => ⟨List.mem_map_of_mem hs, length_displacement (hdata s hs)⟩

theorem length_replaceRelative
    {code code' : List UInt8} {base index target count : Nat}
    (h : replaceRelative code base index target = .ok (count, code')) :
    code'.length = code.length := by
  unfold replaceRelative at h
  split at h
  · cases h
  · next stores hstores =>
      cases h
      refine length_foldl_overwrite code stores fun s hs => ?_
      obtain ⟨hmem, hlength⟩ := displacements_at hstores s hs
      have hfit := occurrences_fit s.1 hmem
      simp only [relativeSlot, Bytes.length_littleEndianBytes] at hfit
      omega

/-! ## Trampolines -/

theorem Trampoline.length_template_le :
    Trampoline.template.length ≤ Trampoline.size := by
  unfold Trampoline.size
  omega

/-- Every trampoline has the same length. -/
theorem Trampoline.length_render
    {base id entry : Nat} {hooks : Hooks} {code : List UInt8}
    (h : Trampoline.render base id hooks entry = .ok code) :
    code.length = Trampoline.size := by
  unfold Trampoline.render at h
  simp only at h
  obtain ⟨⟨count, placed⟩, hplaced, rfl⟩ := map_eq_ok.mp h
  have hlength := length_replaceRelative hplaced
  simp only [length_replaceAbsolute] at hlength
  have hfits := length_template_le
  rw [List.length_append, List.length_replicate, hlength]
  omega

/-! ## Moved instructions -/

theorem length_moveInstruction
    {range : Memory.Range} {i : Instruction} {bytes moved : List UInt8} {address : Nat}
    (near : ∀ target, i.relocation = .nearBranch target → 4 ≤ i.length)
    (taken : bytes.length ≤ i.length)
    (h : moveInstruction range i bytes address = .ok moved) :
    moved.length ≤ i.length := by
  unfold moveInstruction at h
  split at h
  · cases h
  · split at h
    · cases h
      exact taken
    · cases h
    · split at h
      · cases h
        exact taken
      · cases h
    · next target hnear =>
        have hfour := near target hnear
        split at h
        · cases h
          exact taken
        · obtain ⟨data, hdata, rfl⟩ := map_eq_ok.mp h
          have hdata := length_displacement hdata
          rw [List.length_append, List.length_take]
          omega

theorem length_moveRun
    {range : Memory.Range} {run : List Instruction} {source moved : List UInt8} {address : Nat}
    (near : ∀ i ∈ run, ∀ target, i.relocation = .nearBranch target → 4 ≤ i.length)
    (h : moveRun range address run source = .ok moved) :
    moved.length ≤ (run.map (·.length)).sum := by
  induction run generalizing source moved address with
  | nil =>
      cases h
      exact Nat.le_refl 0
  | cons i rest ih =>
      rw [moveRun] at h
      obtain ⟨first, hfirst, h⟩ := bind_eq_ok.mp h
      obtain ⟨more, hmore, h⟩ := bind_eq_ok.mp h
      cases h
      have hi := length_moveInstruction (near i List.mem_cons_self)
        (by rw [List.length_take]; omega) hfirst
      have hrest := ih (fun j hj => near j (List.mem_cons_of_mem _ hj)) hmore
      rw [List.length_append, List.map_cons, List.sum_cons]
      omega

/-! ## Jumps -/

theorem length_nearJump
    {origin target : Nat} {jump : List UInt8}
    (h : nearJump origin target = .ok jump) :
    jump.length = nearJumpSize := by
  rw [nearJump] at h
  obtain ⟨data, hdata, rfl⟩ := map_eq_ok.mp h
  rw [List.length_cons, length_displacement hdata]
  rfl

/-- The code of a moving patch fits the block that is asked for, and the jump to it the first bytes
of the function. -/
theorem MovingPatch.length_code
    {window code jump : List UInt8} {run : List Instruction} {hooks : Hooks}
    {target id block : Nat}
    (near : ∀ i ∈ run, ∀ target, i.relocation = .nearBranch target → 4 ≤ i.length)
    (h : MovingPatch.code window run hooks target id block = .ok (code, jump)) :
    code.length ≤ Trampoline.size + (run.map (·.length)).sum + nearJumpSize ∧
      jump.length = nearJumpSize := by
  simp only [MovingPatch.code] at h
  obtain ⟨trampoline, htrampoline, h⟩ := bind_eq_ok.mp h
  obtain ⟨moved, hmoved, h⟩ := bind_eq_ok.mp h
  obtain ⟨back, hback, h⟩ := bind_eq_ok.mp h
  obtain ⟨toBlock, hjump, h⟩ := bind_eq_ok.mp h
  obtain ⟨rfl, rfl⟩ := Prod.mk.inj (Except.ok.inj h)
  have htrampoline := Trampoline.length_render htrampoline
  have hmoved := length_moveRun near hmoved
  have hback := length_nearJump hback
  refine ⟨?_, length_nearJump hjump⟩
  simp only [List.length_append]
  omega

end CallProfiler.Code
