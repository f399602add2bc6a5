import CallProfiler.Proofs.Code.InPlace
import CallProfiler.Proofs.Code.Rendering

/-!
# How a moved start is linked

The block of a patch that moves the start of a function holds three pieces of code: the trampoline, the
moved instructions and a jump.  The trampoline calls the moved instructions, the jump behind them leads
back into the function, and while the patch is on the function starts with a jump to the block.  That one
is five bytes wide and is put in place by three stores; between the first and the last of them the
function starts with a jump to itself.  The jumps are read by any decoder that is as documented.

**Main statements.**
* `replaces_writeEntry`: the memory after each store.
* `MovingPatch.BuiltFrom.linked`: what the block holds.
* `MovingPatch.Continues.run`: what any number of switches keeps.
* `MovingPatch.moved_start_is_linked`: the block, and every moment of every switch.
-/

namespace CallProfiler

open Memory Instruction

namespace Code

variable {d : Decoder} {s t : Space} {a target : Nat}

/-! ## Calls -/

/-- At an address stands a near call of a destination. -/
def CallsNear (d : Decoder) (s : Space) (a destination : Nat) : Prop :=
  instructionAt d s a = some ⟨a, nearJumpSize, .nearBranch destination, .call, .other⟩

theorem callsNear_of_read
    {destination : Nat} {data rest : List UInt8}
    (hd : d.Documented)
    (h : displacement (a + nearJumpSize) destination = .ok data)
    (hread : s.read a (nearJumpSize + rest.length) = 0xE8 :: data ++ rest)
    (hbound : destination < 2 ^ 64) :
    CallsNear d s a destination := by
  have hlength : (0xE8 :: data).length = nearJumpSize := by
    rw [List.length_cons, length_displacement h]
    rfl
  have hsplit : s.read a maxLength = s.read a nearJumpSize ++ s.read (a + nearJumpSize) 10 :=
    s.read_add a nearJumpSize 10
  rw [CallsNear, instructionAt, hsplit, (Space.read_append hread hlength).1]
  exact first_near hd (.inl ⟨rfl, rfl⟩) h hbound _

/-- Where the call of a trampoline stands, counted from its front. -/
def Trampoline.callOffset : Nat := Trampoline.callEnd - nearJumpSize

/-- A trampoline in memory calls the code that it was rendered for. -/
theorem callsNear_of_render
    {base id entry : Nat} {hooks : Hooks} {code : List UInt8}
    (hd : d.Documented)
    (h : Trampoline.render base id hooks entry = .ok code)
    (hread : s.read base Trampoline.size = code)
    (hbound : entry < 2 ^ 64) :
    CallsNear d s (base + Trampoline.callOffset) entry := by
  obtain ⟨front, operand, back, rfl, hfront, hoperand⟩ := Trampoline.render_calls h
  have hoffset : Trampoline.callOffset = front.length := by
    rw [Trampoline.callOffset, ← hfront]
    rfl
  have hsize : Trampoline.size = front.length + (nearJumpSize + back.length) := by
    have hlength := Trampoline.length_render h
    rw [List.length_append, List.length_append, List.length_cons, length_displacement hoperand] at hlength
    exact hlength.symm
  rw [hsize] at hread
  rw [hoffset]
  exact callsNear_of_read hd hoperand (Space.read_append hread rfl).2 hbound

/-! ## Stores -/

/-- The memory before five bytes are put over the start of a function, and after each of the stores. -/
def moments (s : Space) (target : Nat) (code : List UInt8) : List Space :=
  (entryStores code).scanl (fun s store => s.write (target + store.1) store.2) s

/-- Stores within some bytes change no others, not even meanwhile. -/
theorem same_of_mem_scanl
    {size x : Nat} {stores : List (Nat × List UInt8)} {u : Space}
    (hwithin : ∀ store ∈ stores, store.1 + store.2.length ≤ size)
    (hmem : u ∈ stores.scanl (fun s store => s.write (target + store.1) store.2) s)
    (hout : x < target ∨ target + size ≤ x) :
    u.bytes x = s.bytes x := by
  induction stores generalizing s with
  | nil =>
      rw [List.scanl_nil, List.mem_singleton] at hmem
      rw [hmem]
  | cons store rest ih =>
      rw [List.scanl_cons, List.mem_cons] at hmem
      obtain ⟨hstore, hrest⟩ := List.forall_mem_cons.1 hwithin
      rcases hmem with rfl | hmem
      · rfl
      · exact (ih hrest hmem).trans (s.bytes_write_outside (by omega))

/-- How the start of a function may be found while other bytes are put there: all five bytes are old, or a
jump to itself holds up whoever enters, or all five bytes are new. -/
inductive Moment (d : Decoder) (target : Nat) (old new : List UInt8) (u : Space) : Prop where
  | old
      (hread : u.read target nearJumpSize = old)
  | held
      (hspins : JumpsShort d u target target)
  | new
      (hread : u.read target nearJumpSize = new)

/-- Five bytes come to stand at the start of a function store by store; nothing else changes meanwhile. -/
structure Replaces (d : Decoder) (target : Nat) (code : List UInt8) (s t : Space) : Prop where
  last : (moments s target code).getLast? = some t
  read : t.read target nearJumpSize = code
  same : ∀ u ∈ moments s target code, ∀ x, x < target ∨ target + nearJumpSize ≤ x →
    u.bytes x = s.bytes x
  moment : ∀ u ∈ moments s target code, Moment d target (s.read target nearJumpSize) code u

/-- Two bytes at the start are enough to hold up whoever enters, whatever is behind them. -/
theorem jumpsShort_self
    (hd : d.Documented)
    (hread : s.read target shortJumpSize = shortJump (-2))
    (hbound : target < 2 ^ 64) :
    JumpsShort d s target target :=
  jumpsShort_of_read hd hread (by decide) (by decide) (by omega) hbound

/-- **Store by store** five bytes replace those at the start of a function. -/
theorem replaces_writeEntry
    (hd : d.Documented)
    (s : Space) {code : List UInt8}
    (five : code.length = nearJumpSize)
    (hbound : target < 2 ^ 64) :
    Replaces d target code s (writeEntry s target code) := by
  let held := s.write target (shortJump (-2))
  let copied := held.write (target + 2) (code.drop 2)
  have hmoments : moments s target code = [s, held, copied, writeEntry s target code] := rfl
  have hall : (writeEntry s target code).read target nearJumpSize = code := by
    rw [Space.read_congr _ fun x _ => bytes_writeEntry _ target five, ← five, Space.read_write]
  have hheld : held.read target shortJumpSize = shortJump (-2) :=
    Space.read_write s target (shortJump (-2))
  -- The bytes behind the jump do not touch it.
  have hcopied : copied.read target shortJumpSize = shortJump (-2) := by
    rw [← hheld]
    refine Space.read_congr _ fun x hx => held.bytes_write_outside ?_
    rw [Range.contains_ofLength_iff] at hx
    exact .inl hx.2
  have hwithin : ∀ store ∈ entryStores code, store.1 + store.2.length ≤ nearJumpSize := by
    simp [entryStores, five, nearJumpSize]
  refine ⟨by rw [hmoments]; rfl, hall, fun u hu x hx => same_of_mem_scanl hwithin hu hx, ?_⟩
  · rw [hmoments]
    simp only [List.mem_cons, List.not_mem_nil, or_false, forall_eq_or_imp, forall_eq]
    exact ⟨.old rfl, .held (jumpsShort_self hd hheld hbound), .held (jumpsShort_self hd hcopied hbound),
      .new hall⟩

/-! ## Switching -/

namespace Patch

/-- A patch after it was switched on or off in some memory. -/
def switch (p : Patch) (on : Bool) (s : Space) : Patch :=
  if on then (p.activate s).2.1 else (p.revert s).2.1

/-- A patch after several switches, each of them in a memory of its own. -/
def switchAll (p : Patch) (switches : List (Bool × Space)) : Patch :=
  switches.foldl (fun p switch => p.switch switch.1 switch.2) p

theorem active_switch
    (p : Patch) (on : Bool) (s : Space) :
    (p.switch on s).active = on := by
  cases on with
  | true =>
      rw [switch, if_pos rfl]
      cases hactive : p.active with
      | true =>
          rw [activate_of_active hactive]
          exact hactive
      | false =>
          cases p with
          | jumper p => rw [activate_jumper hactive]; rfl
          | moving p => rw [activate_moving hactive]; rfl
  | false =>
      rw [switch, if_neg Bool.false_ne_true]
      exact (off_revert s p).1

/-- The last switch decides. -/
theorem active_switchAll
    (p : Patch) (switches : List (Bool × Space)) :
    (p.switchAll switches).active = (switches.map (·.1)).getLastD p.active := by
  induction switches generalizing p with
  | nil =>
      rfl
  | cons first rest ih =>
      have hrest := ih (p.switch first.1 first.2)
      rw [active_switch] at hrest
      rw [List.map_cons, List.getLastD_cons]
      exact hrest

end Patch

namespace MovingPatch

variable {m m' : Arena} {allocate : BlockSource} {hooks : Hooks} {size id : Nat} {p : MovingPatch}

/-! ## The block -/

namespace BuiltFrom

variable {prologue : List Instruction} {placed : List UInt8} {granted : Arena}

/-- **The block** holds the trampoline, the moved instructions and a jump behind them. -/
theorem linked
    (h : BuiltFrom d m allocate hooks target size id prologue placed granted p)
    (hd : d.Documented)
    (htarget : target < 2 ^ 63)
    (hblock : p.block.address < 2 ^ 63) :
    ∃ trampoline moved,
      Trampoline.render p.block.address id hooks p.entry = .ok trampoline ∧
      moveInstructions (m.space.read target (min size (nearJumpSize + maxLength))) prologue p.entry =
        .ok moved ∧
      moved.length = runLength prologue ∧
      (place granted p.block placed).space.read p.block.address Trampoline.size = trampoline ∧
      (place granted p.block placed).space.read p.entry moved.length = moved ∧
      CallsNear d (place granted p.block placed).space (p.block.address + Trampoline.callOffset) p.entry ∧
      JumpsNear d (place granted p.block placed).space (p.entry + moved.length) (target + moved.length) := by
  have hmade := h.made
  simp only [MovingPatch.code] at hmade
  obtain ⟨trampoline, htrampoline, hmade⟩ := bind_eq_ok.1 hmade
  obtain ⟨moved, hmoved, hmade⟩ := bind_eq_ok.1 hmade
  obtain ⟨back, hback, hmade⟩ := bind_eq_ok.1 hmade
  obtain ⟨jump, -, hmade⟩ := bind_eq_ok.1 hmade
  obtain ⟨rfl, -⟩ := Prod.mk.inj (Except.ok.inj hmade)
  have hspells := Decoder.spells_of_prologue h.read
  have hmovedLength : moved.length = runLength prologue := length_eq_of_moveRun hd.near hspells hmoved
  have htrampolineLength := Trampoline.length_render htrampoline
  have hbackLength := length_nearJump hback
  have hall : (place granted p.block (trampoline ++ moved ++ back)).space.read p.block.address
      (Trampoline.size + (moved.length + nearJumpSize)) = trampoline ++ (moved ++ back) := by
    rw [← htrampolineLength, ← hbackLength, ← List.length_append, ← List.length_append,
      ← List.append_assoc]
    exact Space.read_write _ _ _
  obtain ⟨hfirst, hrest⟩ := Space.read_append hall htrampolineLength
  obtain ⟨hsecond, hthird⟩ := Space.read_append hrest rfl
  have hentry : p.entry < 2 ^ 64 := by
    have hsize : Trampoline.size = 272 := by decide +kernel
    rw [MovingPatch.entry, hsize]
    omega
  have hreturn : target + moved.length < 2 ^ 64 := by
    have htaken := Decoder.runLength_le hspells
    rw [Space.length_read] at htaken
    have hwindow : nearJumpSize + maxLength = 20 := rfl
    omega
  refine ⟨trampoline, moved, htrampoline, hmoved, hmovedLength, hfirst, hsecond,
    callsNear_of_render hd htrampoline hfirst hentry, jumpsNear_of_read hd ?_ hreturn⟩
  rw [MovingPatch.entry, hthird, hmovedLength]
  exact hback

end BuiltFrom

/-! ## Switches of a patch -/

/-- What a patch has in common with what it was built as, however it was switched. -/
structure Continues (p q : MovingPatch) : Prop where
  target : q.target = p.target
  jump : q.jump = p.jump
  block : q.block = p.block
  saved : q.active = true → q.saved.length = nearJumpSize

namespace Continues

variable {q : MovingPatch}

theorem start
    (off : p.active = false) :
    Continues p p :=
  ⟨rfl, rfl, rfl, fun on => by rw [off] at on; cases on⟩

theorem switch
    (h : Continues p q)
    (on : Bool) (s : Space) :
    ∃ q', (Patch.moving q).switch on s = .moving q' ∧ Continues p q' := by
  cases on with
  | true =>
      rw [Patch.switch, if_pos rfl]
      cases hactive : q.active with
      | true =>
          have hsame : (Patch.moving q).activate s = (false, .moving q, s) := activate_of_active hactive
          exact ⟨q, by rw [hsame], h⟩
      | false =>
          rw [activate_moving hactive]
          exact ⟨_, rfl, h.target, h.jump, h.block, fun _ => s.length_read _⟩
  | false =>
      rw [Patch.switch, if_neg Bool.false_ne_true]
      cases hactive : q.active with
      | true =>
          rw [revert_moving hactive]
          exact ⟨_, rfl, h.target, h.jump, h.block, fun on => by cases on⟩
      | false =>
          have hsame : (Patch.moving q).revert s = (false, .moving q, s) := revert_of_inactive hactive
          exact ⟨q, by rw [hsame], h⟩

/-- **Any number of switches**, each in a memory of its own. -/
theorem run
    (h : Continues p q)
    (switches : List (Bool × Space)) :
    ∃ q', (Patch.moving q).switchAll switches = .moving q' ∧ Continues p q' := by
  induction switches generalizing q with
  | nil =>
      exact ⟨q, rfl, h⟩
  | cons first rest ih =>
      obtain ⟨q', hfirst, hkept⟩ := h.switch first.1 first.2
      obtain ⟨q'', hrest, hkept'⟩ := ih hkept
      refine ⟨q'', ?_, hkept'⟩
      rw [Patch.switchAll, List.foldl_cons, hfirst]
      exact hrest

end Continues

/-- **How a moved start is linked.**  When a patch that moves the start of a function is built, its block
holds the trampoline for the code right behind it, there the moved instructions, as long as they were, and
behind those a near jump to the rest of the function; the trampoline calls the moved instructions.  At any
time later, however often the patch was switched and whatever the memory holds, switching it on replaces
the first five bytes of the function, and no others, by a near jump to the block, and switching it off
replaces them by those that it had replaced; after each single store the five bytes are all old, or start with
a jump to itself, or are all new.  Switching it to what it is changes nothing.  The instructions are those
of any decoder that is as documented. -/
theorem moved_start_is_linked
    (hd : d.Documented)
    (htarget : target < 2 ^ 63)
    (hblock : p.block.address < 2 ^ 63)
    (hbuild : MovingPatch.build m allocate hooks target size id d = (.ok p, m')) :
    (∃ prologue trampoline moved,
      d.prologue (m.space.read target (min size 20)) target nearJumpSize = some prologue ∧
      Trampoline.render p.block.address id hooks (p.block.address + Trampoline.size) = .ok trampoline ∧
      moveInstructions (m.space.read target (min size 20)) prologue p.entry = .ok moved ∧
      moved.length = runLength prologue ∧
      p.entry = p.block.address + Trampoline.size ∧
      m'.space.read p.block.address Trampoline.size = trampoline ∧
      m'.space.read p.entry moved.length = moved ∧
      CallsNear d m'.space (p.block.address + Trampoline.callOffset) p.entry ∧
      JumpsNear d m'.space (p.entry + moved.length) (target + moved.length)) ∧
    ∀ (earlier : List (Bool × Space)) (s : Space),
      ∃ q, (Patch.moving p).switchAll earlier = .moving q ∧
        q.active = (earlier.map (·.1)).getLastD false ∧
        (q.active = false →
          (Patch.moving q).revert s = (false, .moving q, s) ∧
            ∃ t, (Patch.moving q).activate s =
                (true, .moving { q with saved := s.read target nearJumpSize, active := true }, t) ∧
              Replaces d target p.jump s t ∧ JumpsNear d t target p.block.address) ∧
        (q.active = true →
          (Patch.moving q).activate s = (false, .moving q, s) ∧
            ∃ t, (Patch.moving q).revert s = (true, .moving { q with active := false }, t) ∧
              Replaces d target q.saved s t) := by
  obtain ⟨prologue, placed, granted, hbuilt, rfl⟩ := build_eq_ok_iff.1 hbuild
  obtain ⟨trampoline, moved, hrender, hmoved, hlength, htrampoline, hprologue, hcall, hback⟩ :=
    hbuilt.linked hd htarget hblock
  refine ⟨⟨prologue, trampoline, moved, hbuilt.read, hrender, hmoved, hlength, rfl, htrampoline, hprologue,
    hcall, hback⟩, fun earlier s => ?_⟩
  have hbound : target < 2 ^ 64 := by omega
  obtain ⟨q, hq, hkept⟩ := (Continues.start hbuilt.active_eq).run earlier
  have hat : q.target = target := hkept.target.trans hbuilt.target_eq
  have hactive := (Patch.moving p).active_switchAll earlier
  rw [hq] at hactive
  refine ⟨q, hq, hactive.trans (congrArg _ hbuilt.active_eq), fun off => ?_, fun on => ?_⟩
  · have hreplaces := replaces_writeEntry hd s (hbuilt.fits hd.near).2 hbound
    refine ⟨revert_of_inactive off, writeEntry s target p.jump, ?_, hreplaces,
      jumpsNear_of_read hd ?_ (by omega)⟩
    · rw [activate_moving off, hat, hkept.jump]
    · rw [hreplaces.read]
      exact hbuilt.nearJump_eq
  · refine ⟨activate_of_active on, writeEntry s target q.saved, ?_,
      replaces_writeEntry hd s (hkept.saved on) hbound⟩
    rw [revert_moving on, hat]

/-- A function of six bytes, which is switched on, off and on again. -/
theorem moved_start_is_linked_counter :
    let m := paged [0x31, 0xC9, 0x48, 0xFF, 0xC1, 0xC3]
    ∃ p m' q t,
      MovingPatch.build m (fun m n => m.allocate 0 n) ⟨1, 2, 3⟩ 0x100000000100 6 7 = (.ok p, m') ∧
        p.block.address = 0x100000001000 ∧
        CallsNear (.ofMode .bits64) m'.space (p.block.address + Trampoline.callOffset) p.entry ∧
        JumpsNear (.ofMode .bits64) m'.space (p.entry + 5) 0x100000000105 ∧
        (Patch.moving p).switchAll [(true, m'.space), (false, m.space)] = .moving q ∧
        Replaces (.ofMode .bits64) 0x100000000100 [0xE9, 0xFB, 0x0E, 0, 0] m'.space t ∧
        JumpsNear (.ofMode .bits64) t 0x100000000100 0x100000001000 := by
  intro m
  have hprologue : (Decoder.ofMode .bits64).Spells (m.space.read 0x100000000100 6) 0x100000000100
      [⟨0x100000000100, 2, .free, .next, .other⟩, ⟨0x100000000102, 3, .free, .next, .other⟩] :=
    ⟨by decide +kernel, by decide +kernel, trivial⟩
  have hread := Decoder.prologue_of_spells hprologue
  obtain ⟨m', hbuild⟩ : ∃ m',
      MovingPatch.build m (fun m n => m.allocate 0 n) ⟨1, 2, 3⟩ 0x100000000100 6 7 =
        (.ok ⟨0x100000000100, [0xE9, 0xFB, 0x0E, 0, 0], [], false, 2, ⟨0x100000001000, 288, 1⟩⟩, m') :=
    exists_build ⟨by decide, hread, by decide⟩ (by decide +kernel) (by decide +kernel)
  obtain ⟨⟨prologue, trampoline, moved, hsame, -, -, hlength, -, -, -, hcall, hback⟩, hswitch⟩ :=
    moved_start_is_linked Decoder.documented_ofMode (by decide) (by decide) hbuild
  cases hread.symm.trans hsame
  have hfive : runLength [⟨0x100000000100, 2, .free, .next, .other⟩,
      ⟨0x100000000102, 3, .free, .next, .other⟩] = 5 := rfl
  rw [hlength, hfive] at hback
  obtain ⟨q, hq, hoff, hon, -⟩ := hswitch [(true, m'.space), (false, m.space)] m'.space
  obtain ⟨-, t, -, hreplaces, hjump⟩ := hon hoff
  exact ⟨_, m', q, t, hbuild, rfl, hcall, hback, hq, hreplaces, hjump⟩

end MovingPatch

end Code

end CallProfiler
