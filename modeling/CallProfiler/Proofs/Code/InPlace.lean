import CallProfiler.Proofs.Code.Moving
import CallProfiler.Proofs.Code.Ownership
import CallProfiler.Proofs.Instruction.Decoders

/-!
# What stays in place of a function

A patch that moves the start of a function looks at its first bytes only, and puts a near jump over five of
them when it is switched on.  The instructions behind the moved ones stay what they are, and their branches
lead where they led: to the same instructions, or from the very start of the function into the block.  What
the instructions are is a decoder's say, and any that is as documented will do.  Only
in the middle of the five bytes there is no instruction any more, and nobody has looked for branches that
lead there.

**Main statements.**
* `MovingPatch.BuiltFrom.bytes_activate`, `MovingPatch.BuiltFrom.jumpsNear_activate`: the memory when a patch
  is switched on.
* `MovingPatch.activation_keeps_branches`: the instructions that stay in place, and their branches.
* `MovingPatch.branch_into_jump`: a function with a branch into the middle of the five bytes.
-/

namespace CallProfiler

open Memory Instruction

/-- A relative branch to an address. -/
def Instruction.BranchesTo (i : Instruction) (goal : Nat) : Prop :=
  i.relocation = .shortBranch goal ∨ i.relocation = .nearBranch goal

namespace Code

/-! ## Instructions in memory -/

/-- The instruction is in memory at its address. -/
def Stands (d : Decoder) (s : Space) (i : Instruction) : Prop :=
  d.first (s.read i.address i.length) i.address = some i

/-- At an address stands a near jump to a destination. -/
def JumpsNear (d : Decoder) (s : Space) (a destination : Nat) : Prop :=
  instructionAt d s a = some ⟨a, nearJumpSize, .nearBranch destination, .jump, .other⟩

variable {d : Decoder} {code : Range} {m m' : Arena} {s t : Space} {allocate : BlockSource} {target a : Nat}

theorem Stands.of_same
    {i : Instruction}
    (h : Stands d s i)
    (same : ∀ x, i.address ≤ x → x < i.finish → t.bytes x = s.bytes x) :
    Stands d t i := by
  have hread : t.read i.address i.length = s.read i.address i.length := by
    refine t.read_congr fun x hx => ?_
    rw [Range.contains_ofLength_iff] at hx
    exact same x hx.1 hx.2
  rw [Stands, hread]
  exact h

/-- **A near call or jump** leads by its displacement from behind it. -/
theorem first_near
    {opcode : UInt8} {flow : Flow} {origin destination : Nat} {data : List UInt8}
    (hd : d.Documented)
    (hopcode : opcode = 0xE8 ∧ flow = .call ∨ opcode = 0xE9 ∧ flow = .jump)
    (h : displacement (origin + nearJumpSize) destination = .ok data)
    (hbound : destination < 2 ^ 64)
    (rest : List UInt8) :
    d.first (opcode :: data ++ rest) origin =
      some ⟨origin, nearJumpSize, .nearBranch destination, flow, .other⟩ := by
  obtain ⟨b, c, e, f, rfl⟩ : ∃ b c e f, data = [b, c, e, f] := by
    match data, length_displacement h with
    | [b, c, e, f], _ => exact ⟨b, c, e, f, rfl⟩
  have hread := hd.nearJump opcode flow hopcode b c e f rest origin
  have hleads : branchTarget (origin + 5) (Bytes.signedLittleEndian [b, c, e, f]) 64 =
      destination := by
    rw [signedLittleEndian_displacement h]
    exact branchTarget_distance (origin + nearJumpSize) hbound
  rw [hleads] at hread
  exact hread

theorem first_nearJump
    {origin destination : Nat} {jump : List UInt8}
    (hd : d.Documented)
    (h : nearJump origin destination = .ok jump)
    (hbound : destination < 2 ^ 64)
    (rest : List UInt8) :
    d.first (jump ++ rest) origin =
      some ⟨origin, nearJumpSize, .nearBranch destination, .jump, .other⟩ := by
  obtain ⟨data, hdata, rfl⟩ := map_eq_ok.1 h
  exact first_near hd (.inr ⟨rfl, rfl⟩) hdata hbound rest

theorem jumpsNear_of_read
    {destination : Nat}
    (hd : d.Documented)
    (h : nearJump a destination = .ok (s.read a nearJumpSize))
    (hbound : destination < 2 ^ 64) :
    JumpsNear d s a destination := by
  have hsplit : s.read a maxLength = s.read a nearJumpSize ++ s.read (a + nearJumpSize) 10 :=
    s.read_add a nearJumpSize 10
  rw [JumpsNear, instructionAt, hsplit]
  exact first_nearJump hd h hbound _

/-! ## Switching on -/

namespace MovingPatch

variable {hooks : Hooks} {size id : Nat} {p : MovingPatch}

namespace BuiltFrom

variable {prologue : List Instruction} {placed : List UInt8} {granted : Arena}

/-- **Switched on**, the patch has changed five bytes of the code and no others. -/
theorem bytes_activate
    (h : BuiltFrom d m allocate hooks target size id prologue placed granted p)
    (near : d.NearBranchesLong)
    (avoids : m.Avoids code)
    (source : allocate.Avoids code)
    {x : Nat}
    (hx : code.contains x = true)
    (hout : x < target ∨ target + nearJumpSize ≤ x) :
    ((Patch.moving p).activate (place granted p.block placed).space).2.2.bytes x = m.space.bytes x := by
  have hlength := (h.fits near).2
  rw [activate_moving h.active_eq, h.target_eq]
  simp only
  rw [bytes_writeEntry _ target hlength, Space.bytes_write_outside _ (by rwa [hlength])]
  exact (h.agrees near avoids source).2 x hx

/-- **Switched on**, the patch leads from the start of the function to its block. -/
theorem jumpsNear_activate
    (h : BuiltFrom d m allocate hooks target size id prologue placed granted p)
    (hd : d.Documented)
    (hbound : p.block.address < addressLimit) :
    JumpsNear d ((Patch.moving p).activate (place granted p.block placed).space).2.2 target
      p.block.address := by
  have hlength := (h.fits hd.near).2
  refine jumpsNear_of_read hd ?_ hbound
  rw [activate_moving h.active_eq, h.target_eq, h.nearJump_eq]
  simp only
  rw [Space.read_congr _ fun x _ => bytes_writeEntry _ target hlength, ← hlength, Space.read_write]

end BuiltFrom

/-! ## Branches -/

/-- A branch to an address leads where it led: at the start of the function to the jump to the block, and
anywhere else to the same instruction, unless that runs into the function from in front of it. -/
inductive LeadsOn (d : Decoder) (code : Range) (before after : Space) (p : MovingPatch) (goal : Nat) :
    Prop where
  | entry
      (hat : goal = p.target)
      (hjump : p.block.address < addressLimit → JumpsNear d after p.target p.block.address)
  | same
      (hother : goal ≠ p.target)
      (hstands : ∀ i, Stands d before i → i.address = goal → code.start ≤ goal → i.finish ≤ code.finish →
        i.finish ≤ p.target ∨ p.target < goal → Stands d after i)

/-- Memory with a function in a page of its own, and an allocator for that page. -/
def paged (function : List UInt8) : Arena :=
  let page : Range := ⟨0x100000000000, 0x100000001000⟩
  (Arena.createAllocator
    { space := { Space.empty with regions := [⟨page, .all⟩] }.write 0x100000000100 function }
    page 32 0x10000).2

/-- **What stays in place.**  When a patch that moves the start of a function is switched on, no byte of
the code changes but five; the instructions behind the moved ones are read as before, with the same
targets, and each relative branch among them leads where it led, unless it leads into the middle of the
five bytes.  Such branches are not looked for: whether a patch is built, and which, depends on the first
twenty bytes of the function only.  This holds for any decoder that is as documented. -/
theorem activation_keeps_branches
    (hd : d.Documented)
    (avoids : m.Avoids code)
    (source : allocate.Avoids code)
    (hstart : code.start ≤ target)
    (hfinish : target + size ≤ code.finish)
    (hbuild : MovingPatch.build m allocate hooks target size id d = (.ok p, m')) :
    ∃ prologue,
      d.prologue (m.space.read target (min size 20)) target nearJumpSize = some prologue ∧
      let moved := runLength prologue
      let s := ((Patch.moving p).activate m'.space).2.2
      nearJumpSize ≤ moved ∧ moved ≤ size ∧
      (∀ x, code.contains x = true → x < target ∨ target + nearJumpSize ≤ x →
        s.bytes x = m.space.bytes x) ∧
      (∀ run, d.Spells (m.space.read (target + moved) (size - moved)) (target + moved) run →
        d.Spells (s.read (target + moved) (size - moved)) (target + moved) run ∧
          ∀ i ∈ run, ∀ goal, i.BranchesTo goal → ¬(target < goal ∧ goal < target + nearJumpSize) →
            LeadsOn d code m.space s p goal) ∧
      ∀ other : Arena, other.space.read target (min size 20) = m.space.read target (min size 20) →
        (∀ n, (allocate other n).1 = (allocate m n).1) →
          (MovingPatch.build other allocate hooks target size id d).1 = .ok p := by
  obtain ⟨prologue, placed, granted, hbuilt, rfl⟩ := build_eq_ok_iff.1 hbuild
  have hcovers := (d.covers_prologue hbuilt.read).enough
  have hwhole : runLength prologue ≤ size := hbuilt.whole
  have hframe {x : Nat} (hx : code.contains x = true) (hout : x < target ∨ target + nearJumpSize ≤ x) :=
    hbuilt.bytes_activate hd.near avoids source hx hout
  refine ⟨prologue, hbuilt.read, hcovers, hwhole, fun x => hframe, fun run hrun => ⟨?_, ?_⟩, ?_⟩
  · rw [Space.read_congr _ fun x hx => ?_]
    · exact hrun
    · rw [Range.contains_ofLength_iff] at hx
      exact hframe (Range.contains_iff.2 ⟨by omega, by omega⟩) (.inr (by omega))
  · intro i _ goal _ houtside
    by_cases hat : goal = target
    · refine .entry (hat.trans hbuilt.target_eq.symm) fun hbound => ?_
      rw [hbuilt.target_eq]
      exact hbuilt.jumpsNear_activate hd hbound
    · rw [← hbuilt.target_eq] at hat
      refine .same hat fun j hstands hj hlow hhigh hclear => hstands.of_same fun x hx hx' => ?_
      rw [hbuilt.target_eq] at hat hclear
      refine hframe (Range.contains_iff.2 ⟨by omega, by omega⟩) ?_
      omega
  · intro other hread hgrants
    have hgrant := hgrants (Trampoline.size + (prologue.map (·.length)).sum + nearJumpSize)
    rw [hbuilt.grant] at hgrant
    have hother : BuiltFrom d other allocate hooks target size id prologue placed
        (allocate other (Trampoline.size + (prologue.map (·.length)).sum + nearJumpSize)).2 p :=
      ⟨⟨hbuilt.long, hread ▸ hbuilt.read, hbuilt.whole⟩, Prod.ext hgrant rfl, hread ▸ hbuilt.made,
        hbuilt.new⟩
    rw [build_eq_ok_iff.2 ⟨prologue, placed, _, hother, rfl⟩]

/-- A loop whose head stays in place, and which starts anew at the start of the function. -/
theorem activation_keeps_branches_outer_loop :
    let m := paged [0x31, 0xC9, 0x48, 0xFF, 0xC1, 0x48, 0x39, 0xF9, 0x72, 0xFB, 0xEB, 0xF4]
    ∃ p m',
      MovingPatch.build m (fun m n => m.allocate 0 n) ⟨1, 2, 3⟩ 0x100000000100 12 7 = (.ok p, m') ∧
        let s := ((Patch.moving p).activate m'.space).2.2
        LeadsOn (.ofMode .bits64) ⟨0x100000000000, 0x100000001000⟩ m.space s p 0x100000000105 ∧
          LeadsOn (.ofMode .bits64) ⟨0x100000000000, 0x100000001000⟩ m.space s p 0x100000000100 := by
  intro m
  have hprologue : (Decoder.ofMode .bits64).Spells (m.space.read 0x100000000100 12) 0x100000000100
      [⟨0x100000000100, 2, .free, .next, .other⟩, ⟨0x100000000102, 3, .free, .next, .other⟩] :=
    ⟨by decide +kernel, by decide +kernel, trivial⟩
  have hrun : (Decoder.ofMode .bits64).Spells (m.space.read 0x100000000105 7) 0x100000000105
      [⟨0x100000000105, 3, .free, .next, .other⟩,
        ⟨0x100000000108, 2, .shortBranch 0x100000000105, .conditionalJump, .other⟩,
        ⟨0x10000000010A, 2, .shortBranch 0x100000000100, .jump, .other⟩] :=
    ⟨by decide +kernel, by decide +kernel, by decide +kernel, trivial⟩
  have hread := Decoder.prologue_of_spells hprologue
  obtain ⟨m', hbuild⟩ : ∃ m',
      MovingPatch.build m (fun m n => m.allocate 0 n) ⟨1, 2, 3⟩ 0x100000000100 12 7 =
        (.ok ⟨0x100000000100, [0xE9, 0xFB, 0x0E, 0, 0], [], false, 2, ⟨0x100000001000, 288, 1⟩⟩, m') :=
    exists_build ⟨by decide, hread, by decide⟩ (by decide +kernel) (by decide +kernel)
  have havoids : m.Avoids ⟨0x100000000000, 0x100000001000⟩ :=
    ⟨fun x hx => ⟨_, List.mem_singleton_self _, hx⟩, fun r hr => (by cases hr)⟩
  obtain ⟨prologue, hsame, -, -, -, hkept, -⟩ := activation_keeps_branches Decoder.documented_ofMode
    havoids (avoids_allocate _ 0) (by decide) (by decide) hbuild
  cases hread.symm.trans hsame
  obtain ⟨-, hbranches⟩ := hkept _ hrun
  refine ⟨_, m', hbuild, ?_, ?_⟩
  · exact hbranches ⟨0x100000000108, 2, .shortBranch 0x100000000105, .conditionalJump, .other⟩ (by simp)
      0x100000000105 (.inl rfl) (by decide)
  · exact hbranches ⟨0x10000000010A, 2, .shortBranch 0x100000000100, .jump, .other⟩ (by simp)
      0x100000000100 (.inl rfl) (by decide)

/-- A loop whose head is the third byte of the function: the head is moved, but the branch that stays in
place leads to where it was, into the middle of the near jump. -/
theorem branch_into_jump :
    let m := paged [0x31, 0xC9, 0x48, 0xFF, 0xC1, 0x48, 0x39, 0xF9, 0x72, 0xF8, 0xC3]
    ∃ p m' prologue run,
      MovingPatch.build m (fun m n => m.allocate 0 n) ⟨1, 2, 3⟩ 0x100000000100 11 7 = (.ok p, m') ∧
        (Decoder.ofMode .bits64).prologue (m.space.read 0x100000000100 11) 0x100000000100 5 = some prologue ∧
        (Decoder.ofMode .bits64).Spells (m.space.read (0x100000000100 + runLength prologue) (11 - runLength prologue))
          (0x100000000100 + runLength prologue) run ∧
        (∃ i ∈ run, ∃ goal, i.BranchesTo goal ∧ 0x100000000100 < goal ∧ goal < 0x100000000100 + 5) ∧
        JumpsNear (.ofMode .bits64) ((Patch.moving p).activate m'.space).2.2 0x100000000100 0x100000001000 := by
  intro m
  have hprologue : (Decoder.ofMode .bits64).Spells (m.space.read 0x100000000100 11) 0x100000000100
      [⟨0x100000000100, 2, .free, .next, .other⟩, ⟨0x100000000102, 3, .free, .next, .other⟩] :=
    ⟨by decide +kernel, by decide +kernel, trivial⟩
  have hrun : (Decoder.ofMode .bits64).Spells (m.space.read 0x100000000105 6) 0x100000000105
      [⟨0x100000000105, 3, .free, .next, .other⟩,
        ⟨0x100000000108, 2, .shortBranch 0x100000000102, .conditionalJump, .other⟩,
        ⟨0x10000000010A, 1, .free, .ret, .other⟩] :=
    ⟨by decide +kernel, by decide +kernel, by decide +kernel, trivial⟩
  have hread := Decoder.prologue_of_spells hprologue
  obtain ⟨m', hbuild⟩ : ∃ m',
      MovingPatch.build m (fun m n => m.allocate 0 n) ⟨1, 2, 3⟩ 0x100000000100 11 7 =
        (.ok ⟨0x100000000100, [0xE9, 0xFB, 0x0E, 0, 0], [], false, 2, ⟨0x100000001000, 288, 1⟩⟩, m') :=
    exists_build ⟨by decide, hread, by decide⟩ (by decide +kernel) (by decide +kernel)
  obtain ⟨_, placed, granted, hbuilt, rfl⟩ := build_eq_ok_iff.1 hbuild
  have hjumps := hbuilt.jumpsNear_activate Decoder.documented_ofMode (by decide)
  refine ⟨_, _, _, _, hbuild, hread, hrun, ?_, hjumps⟩
  exact ⟨⟨0x100000000108, 2, .shortBranch 0x100000000102, .conditionalJump, .other⟩, by simp,
    0x100000000102, .inl rfl, by decide, by decide⟩

end MovingPatch

end Code

end CallProfiler
