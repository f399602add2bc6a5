import CallProfiler.Proofs.Code.Building
import CallProfiler.Proofs.Instruction.Decoders

/-!
# Where a diverted function goes

A jumper that is switched on puts a short jump over the first two bytes of the function; it leads to the
stub in front of the function, a long jump.  The function's own behaviour stays reachable at the entry:
behind bytes that do nothing, or at a copy of the leading instruction from which a short jump goes on
behind the original.  Instructions are read by any decoder that is as documented.

**Main statements.**
* `longJump_eq_replaceAbsolute`: a long jump is its template with the address put in.
* `first_shortJump`, `first_longJump`: how the jumps are read.
* `Decoder.Documented.first_of_free`: an instruction without relocation is the same wherever its bytes are.
* `Leading.ofBytes_idle`, `Leading.ofBytes_copied`: what is known of the start of the function.
* `Jumper.Switched.run`: what any number of switches changes.
* `Jumper.diverts_and_preserves`: what is read at the function, at the stub and at the entry.
-/

namespace CallProfiler

open Memory Instruction

namespace Memory.Space

variable {s t : Space} {a : Nat}

theorem read_add
    (s : Space) (a count more : Nat) :
    s.read a (count + more) = s.read a count ++ s.read (a + count) more := by
  simp only [read, List.range_add, List.map_append, List.map_map, Nat.add_assoc]
  rfl

theorem take_read
    (s : Space) (a : Nat) {count all : Nat}
    (h : count ≤ all) :
    (s.read a all).take count = s.read a count := by
  obtain ⟨more, rfl⟩ := Nat.exists_eq_add_of_le h
  rw [s.read_add, List.take_left' (s.length_read count)]

/-- Memory that spells two pieces spells each of them. -/
theorem read_append
    {count more : Nat} {first second : List UInt8}
    (h : s.read a (count + more) = first ++ second)
    (hcount : first.length = count) :
    s.read a count = first ∧ s.read (a + count) more = second := by
  rw [s.read_add] at h
  exact List.append_inj h (by rw [length_read, hcount])

/-- What was stored is read. -/
theorem read_write
    (s : Space) (a : Nat) (data : List UInt8) :
    (s.write a data).read a data.length = data := by
  apply List.ext_getElem
  · simp
  · intro i hi hi'
    have hbyte : data[a + i - a]? = some data[i] := by
      rw [Nat.add_sub_cancel_left, List.getElem?_eq_getElem hi']
    simp only [read, List.getElem_map, List.getElem_range]
    exact s.bytes_write_inside (Nat.le_add_right a i) hbyte

end Memory.Space

namespace Instruction.Decoder

variable {d : Decoder} {bytes : List UInt8} {address : Nat} {i : Instruction}

/-- The bytes start with instructions that do nothing, `count` bytes in all. -/
def Idles (d : Decoder) (bytes : List UInt8) (address count : Nat) : Prop :=
  ∃ run, d.Spells bytes address run ∧ runLength run = count ∧ ∀ i ∈ run, i.isNop = true

namespace Documented

/-- An instruction that means the same everywhere is read from the same bytes at any address. -/
theorem first_of_free
    (hd : d.Documented)
    (h : d.first bytes address = some i)
    (hfree : i.relocation = .free)
    (address' : Nat) (rest : List UInt8) :
    d.first (bytes.take i.length ++ rest) address' = some { i with address := address' } := by
  obtain ⟨front, held, behind, rfl, hsize, hholds, -, hagain⟩ := hd.decided h
  obtain rfl : held = [] := by
    simpa [Holds, hfree] using hholds
  have hfront : front.length = i.length := by
    simpa using hsize
  have htake : (front ++ ([] ++ behind)).take i.length = front :=
    List.take_left' hfront
  have hsame : d.first (front ++ ([] ++ rest)) address' = some (withDisplacement i address' []) :=
    hagain address' [] rest rfl
  rw [htake, ← List.nil_append rest, hsame]
  simp [withDisplacement, hfree, Relocation.mapTarget]

/-- Whether an instruction does nothing, and its length, do not depend on where it lies. -/
theorem exists_first_at
    (hd : d.Documented)
    (h : d.first bytes address = some i)
    (address' : Nat) :
    ∃ i', d.first bytes address' = some i' ∧ i'.length = i.length ∧ i'.isNop = i.isNop := by
  obtain ⟨front, held, behind, rfl, -, -, -, hagain⟩ := hd.decided h
  exact ⟨_, hagain address' held behind rfl, rfl, rfl⟩

/-- **A start that does nothing** is made of instructions that do nothing. -/
theorem idles_of_paddingLength?
    {n : Nat}
    (hd : d.Documented)
    (h : d.paddingLength? bytes .bits64 = some n)
    (address : Nat) :
    2 ≤ n ∧ d.Idles bytes address n := by
  unfold paddingLength? at h
  split at h
  · next rest =>
      cases h
      exact ⟨Nat.le_refl 2, [⟨address, 1, .free, .next, .nop⟩, ⟨address + 1, 1, .free, .next, .nop⟩],
        ⟨hd.nop _ _, hd.nop _ _, trivial⟩, rfl, by simp [isNop]⟩
  · rw [if_neg (by simp)] at h
    obtain ⟨i, hi, rfl⟩ := Option.map_eq_some_iff.1 h
    obtain ⟨hread, hnop⟩ := Option.filter_eq_some_iff.1 hi
    simp only [decide_eq_true_eq] at hnop
    obtain ⟨i', hread', hlength, hsame⟩ := hd.exists_first_at hread address
    refine ⟨hnop.2, [i'], ⟨hread', trivial⟩, ?_, ?_⟩
    · rw [runLength_cons, hlength]
      rfl
    · intro j hj
      rw [List.mem_singleton.1 hj, hsame]
      exact hnop.1

end Documented

end Instruction.Decoder

namespace Code

/-! ## Jumps -/

/-- The eight bytes of the address stand where the template of a long jump has its marker. -/
theorem longJump_eq_replaceAbsolute
    (target : Nat) :
    replaceAbsolute ([0xFF, 0x25, 0x00, 0x00, 0x00, 0x00] ++ absoluteSlot 1) 1 target =
      (1, longJump target) := by
  have hslots : occurrences (absoluteSlot 1)
      ([0xFF, 0x25, 0x00, 0x00, 0x00, 0x00] ++ absoluteSlot 1) = [6] := by
    decide
  simp only [replaceAbsolute, hslots]
  rfl

theorem length_longJump
    (target : Nat) :
    (longJump target).length = longJumpSize := by
  simp [longJump, longJumpSize]

theorem signedLittleEndian_shortJump
    {offset : Int}
    (hlow : -128 ≤ offset)
    (hhigh : offset < 128) :
    Bytes.signedLittleEndian [UInt8.ofNat (offset % 256).toNat] = offset := by
  have hbyte : (UInt8.ofNat (offset % 256).toNat).toNat = (offset % 256).toNat % 256 := rfl
  simp only [Bytes.signedLittleEndian, Bytes.littleEndian, List.length_singleton, hbyte, Int.bmod_def]
  omega

variable {d : Decoder}

/-- **A short jump** leads by its displacement from behind it. -/
theorem first_shortJump
    {offset : Int} {address target : Nat}
    (hd : d.Documented)
    (hlow : -128 ≤ offset)
    (hhigh : offset < 128)
    (htarget : (address : Int) + 2 + offset = target)
    (hbound : target < 2 ^ 64)
    (rest : List UInt8) :
    d.first (shortJump offset ++ rest) address =
      some ⟨address, shortJumpSize, .shortBranch target, .jump, .other⟩ := by
  have hread := hd.shortJump (UInt8.ofNat (offset % 256).toNat) rest address
  have hleads : branchTarget (address + 2) offset 64 = target := by
    unfold branchTarget
    omega
  rw [signedLittleEndian_shortJump hlow hhigh, hleads] at hread
  exact hread

/-- **A long jump** goes through the eight bytes behind it. -/
theorem first_longJump
    (hd : d.Documented)
    (divertTo address : Nat) (rest : List UInt8) :
    d.first (longJump divertTo ++ rest) address =
      some ⟨address, 6, .pointerRelative, .indirectJump, .other⟩ :=
  hd.longJump 0 0 0 0 (Bytes.littleEndianBytes 8 divertTo ++ rest) address

/-! ## Instructions in memory -/

/-- The instruction that a decoder reads at an address. -/
def instructionAt (d : Decoder) (s : Space) (a : Nat) : Option Instruction :=
  d.first (s.read a maxLength) a

/-- At an address stands a short jump to a destination. -/
def JumpsShort (d : Decoder) (s : Space) (a destination : Nat) : Prop :=
  instructionAt d s a = some ⟨a, shortJumpSize, .shortBranch destination, .jump, .other⟩

/-- At an address stands an indirect jump through the eight bytes behind it, which hold a destination. -/
def JumpsLong (d : Decoder) (s : Space) (a destination : Nat) : Prop :=
  instructionAt d s a = some ⟨a, 6, .pointerRelative, .indirectJump, .other⟩ ∧
    s.read a 6 = [0xFF, 0x25, 0x00, 0x00, 0x00, 0x00] ∧
    Bytes.littleEndian (s.read (a + 6) 8) = destination

variable {s : Space} {a : Nat}

theorem jumpsShort_of_read
    {offset : Int} {destination : Nat}
    (hd : d.Documented)
    (hread : s.read a shortJumpSize = shortJump offset)
    (hlow : -128 ≤ offset)
    (hhigh : offset < 128)
    (hleads : (a : Int) + 2 + offset = destination)
    (hbound : destination < 2 ^ 64) :
    JumpsShort d s a destination := by
  have hsplit : s.read a maxLength = shortJump offset ++ s.read (a + shortJumpSize) 13 := by
    rw [← hread]
    exact s.read_add a shortJumpSize 13
  rw [JumpsShort, instructionAt, hsplit]
  exact first_shortJump hd hlow hhigh hleads hbound _

theorem jumpsLong_of_read
    {destination : Nat}
    (hd : d.Documented)
    (hread : s.read a longJumpSize = longJump destination)
    (hbound : destination < 2 ^ 64) :
    JumpsLong d s a destination := by
  have hsplit : s.read a maxLength = longJump destination ++ s.read (a + longJumpSize) 1 := by
    rw [← hread]
    exact s.read_add a longJumpSize 1
  have hparts : s.read a (6 + 8) = [0xFF, 0x25, 0x00, 0x00, 0x00, 0x00] ++
      Bytes.littleEndianBytes 8 destination :=
    hread
  obtain ⟨hjump, hslot⟩ := Space.read_append hparts rfl
  refine ⟨?_, hjump, ?_⟩
  · rw [instructionAt, hsplit]
    exact first_longJump hd destination a _
  · rw [hslot, Bytes.littleEndian_littleEndianBytes]
    exact Nat.mod_eq_of_lt hbound

theorem instructionAt_of_read
    {bytes : List UInt8} {address : Nat} {i : Instruction}
    (hd : d.Documented)
    (h : d.first bytes address = some i)
    (hfree : i.relocation = .free)
    (hread : s.read a i.length = bytes.take i.length) :
    instructionAt d s a = some { i with address := a } := by
  have hsplit : s.read a maxLength =
      bytes.take i.length ++ s.read (a + i.length) (maxLength - i.length) := by
    rw [← hread, ← s.read_add, Nat.add_sub_cancel' (Decoder.length_le_maxLength h)]
  rw [instructionAt, hsplit]
  exact hd.first_of_free h hfree a _

/-! ## The start of a function -/

namespace Leading

theorem ofBytes_idle
    {head : List UInt8} {address n : Nat}
    (hd : d.Documented)
    (h : ofBytes head address d = .ok (.idle n)) :
    2 ≤ n ∧ d.Idles head address n := by
  unfold ofBytes at h
  split at h
  next hpadding =>
    cases h
    exact hd.idles_of_paddingLength? hpadding address
  next =>
    split at h
    · cases h
    · split at h
      · cases h
      · split at h <;> cases h

theorem ofBytes_copied
    {head : List UInt8} {address n : Nat}
    (h : ofBytes head address d = .ok (.copied n)) :
    ∃ i, d.first head address = some i ∧ i.relocation = .free ∧ i.length = n ∧ 2 ≤ n := by
  unfold ofBytes at h
  split at h
  · cases h
  · split at h
    · cases h
    next i hread =>
      split at h
      · cases h
      next hfree =>
        split at h
        · cases h
        next hlong =>
          cases h
          exact ⟨i, hread, by simpa using hfree, rfl, Nat.le_of_not_lt hlong⟩

theorem length_stub
    {s : Space} {address : Nat} {leading : Leading}
    (divertTo : Nat)
    (h : ofBytes (s.read address maxLength) address d = .ok leading) :
    (leading.stub (s.read address maxLength) divertTo).length = leading.stubSize := by
  cases leading with
  | idle n =>
      exact length_longJump divertTo
  | copied n =>
      obtain ⟨i, hread, -, rfl, -⟩ := ofBytes_copied h
      have hshort := Decoder.length_le_maxLength hread
      simp only [stub, stubSize, List.length_append, List.length_take, Space.length_read,
        length_longJump, Nat.min_eq_left hshort]
      rfl

theorem longJumpSize_le
    (leading : Leading) :
    longJumpSize ≤ leading.stubSize := by
  cases leading with
  | idle n => exact Nat.le_refl _
  | copied n => rw [stubSize, Nat.add_assoc]; exact Nat.le_add_right _ _

end Leading

namespace Jumper

/-! ## Switching -/

/-- Switches the diversion on or off. -/
def switch (j : Jumper) (s : Space) (on : Bool) : Jumper × Space :=
  if on then (j.activate s).2 else (j.revert s).2

/-- Switches the diversion several times. -/
def switchAll (j : Jumper) (s : Space) (switches : List Bool) : Jumper × Space :=
  switches.foldl (fun p on => p.1.switch p.2 on) (j, s)

/-- What switching keeps of a jumper whose stub was placed: nothing but the first two bytes of the
function ever changes, and they are the short jump while the jumper is on. -/
structure Switched (first : Jumper) (placed : Space) (j : Jumper) (s : Space) : Prop where
  target : j.target = first.target
  entry : j.entry = first.entry
  padding : j.padding = first.padding
  elsewhere : ∀ x, x < first.target ∨ first.target + shortJumpSize ≤ x → s.bytes x = placed.bytes x
  on : j.active = true →
    s.read first.target shortJumpSize = first.diversion ∧
      j.saved = placed.read first.target shortJumpSize
  off : j.active = false → s.read first.target shortJumpSize = placed.read first.target shortJumpSize

variable {first j : Jumper} {placed s : Space}

theorem Switched.start
    (h : j.active = false)
    (s : Space) :
    j.Switched s j s where
  target := rfl
  entry := rfl
  padding := rfl
  elsewhere := fun _ _ => rfl
  on := fun hon => by rw [h] at hon; cases hon
  off := fun _ => rfl

theorem Switched.diversion_eq
    (h : first.Switched placed j s) :
    j.diversion = first.diversion := by
  rw [diversion, diversion, h.target, h.padding]

theorem Switched.switch
    (h : first.Switched placed j s)
    (on : Bool) :
    first.Switched placed (j.switch s on).1 (j.switch s on).2 := by
  cases on with
  | true =>
      cases hactive : j.active with
      | true =>
          simpa [Jumper.switch, activate, hactive] using h
      | false =>
          have hlength : first.diversion.length = shortJumpSize := length_diversion first
          simp only [Jumper.switch, activate, hactive, if_true, Bool.false_eq_true, if_false]
          refine ⟨h.target, h.entry, h.padding, ?_, ?_, by simp⟩
          · intro x hx
            rw [Space.bytes_write_outside, h.elsewhere x hx]
            rw [length_diversion, h.target]
            omega
          · intro _
            rw [h.diversion_eq, h.target, h.off hactive, ← hlength, Space.read_write]
            exact ⟨rfl, rfl⟩
  | false =>
      cases hactive : j.active with
      | false =>
          simpa [Jumper.switch, revert, hactive] using h
      | true =>
          obtain ⟨-, hsaved⟩ := h.on hactive
          have hlength : j.saved.length = shortJumpSize := by
            rw [hsaved, Space.length_read]
          simp only [Jumper.switch, revert, hactive, Bool.false_eq_true, if_false, if_true]
          refine ⟨h.target, h.entry, h.padding, ?_, by simp, ?_⟩
          · intro x hx
            rw [Space.bytes_write_outside, h.elsewhere x hx]
            rw [hlength, h.target]
            omega
          · intro _
            rw [h.target, ← hlength, Space.read_write, hlength]
            exact hsaved

/-- **Any number of switches.** -/
theorem Switched.run
    (h : first.Switched placed j s)
    (switches : List Bool) :
    first.Switched placed (j.switchAll s switches).1 (j.switchAll s switches).2 := by
  induction switches generalizing j s with
  | nil => exact h
  | cons on rest ih => exact ih (h.switch on)

theorem active_switch
    (j : Jumper) (s : Space) (on : Bool) :
    (j.switch s on).1.active = on := by
  cases on <;> cases hactive : j.active <;> simp [switch, activate, revert, hactive]

/-- The last switch decides. -/
theorem active_switchAll
    (j : Jumper) (s : Space) (switches : List Bool) :
    (j.switchAll s switches).1.active = switches.getLastD j.active := by
  induction switches generalizing j s with
  | nil =>
      rfl
  | cons on rest ih =>
      have hrest := ih (j.switch s on).1 (j.switch s on).2
      rw [active_switch] at hrest
      rw [List.getLastD_cons]
      exact hrest

/-! ## The stub -/

/-- Where the stub of a jumper lies, and what it says. -/
structure Placed (d : Decoder) (s : Space) (target divertTo : Nat) (leading : Leading) (j : Jumper) (t : Space) :
    Prop where
  leads : Leading.ofBytes (s.read target maxLength) target d = .ok leading
  diverts : j.target = target
  inactive : j.active = false
  start : j.padding.start + leading.stubSize = target
  entry : j.entry = leading.entry target
  stub : t.read j.padding.start leading.stubSize = leading.stub (s.read target maxLength) divertTo
  behind : ∀ x, target ≤ x → t.bytes x = s.bytes x

variable {t : Space} {target divertTo : Nat} {leading : Leading}

/-- **Where the stub lies.** -/
theorem exists_placed
    (room : 32 ≤ target)
    (h : Jumper.install s target divertTo d = .ok (j, t)) :
    ∃ leading, Placed d s target divertTo leading j t := by
  obtain ⟨leading, hleading, h⟩ := bind_eq_ok.mp h
  have hsize := stubSize_ofBytes hleading
  have hlength := Leading.length_stub divertTo hleading
  simp only at h
  split at h
  · cases h
  · obtain ⟨rfl, rfl⟩ := Prod.mk.inj (Except.ok.inj h)
    refine ⟨leading, hleading, rfl, rfl, ?_, rfl, ?_, ?_⟩
    · simp only
      omega
    · simp only
      rw [← hlength, Space.read_write]
    · intro x hx
      refine s.bytes_write_outside ?_
      omega

theorem Switched.read_below
    (h : first.Switched placed j s)
    {a count : Nat}
    (below : a + count ≤ first.target) :
    s.read a count = placed.read a count := by
  refine s.read_congr fun x hx => h.elsewhere x (.inl ?_)
  rw [Range.contains_ofLength_iff] at hx
  omega

namespace Placed

variable {u : Space}

theorem longJump_read
    (h : Placed d s target divertTo leading j t) :
    t.read j.padding.start longJumpSize = longJump divertTo := by
  have hstub := h.stub
  cases leading with
  | idle n =>
      exact hstub
  | copied n =>
      rw [Leading.stub, Leading.stubSize, List.append_assoc, Nat.add_assoc] at hstub
      exact (Space.read_append hstub (length_longJump divertTo)).1

theorem copy_read
    {i : Instruction}
    (h : Placed d s target divertTo (.copied i.length) j t)
    (hlong : i.length ≤ maxLength) :
    t.read j.entry i.length = (s.read target maxLength).take i.length ∧
      t.read (j.entry + i.length) shortJumpSize = shortJump i.length := by
  have hentry : j.padding.start + longJumpSize = j.entry := by
    have hstart := h.start
    rw [h.entry]
    simp only [Leading.stubSize, Leading.entry] at hstart ⊢
    omega
  have hstub := h.stub
  rw [Leading.stub, Leading.stubSize, List.append_assoc, Nat.add_assoc] at hstub
  have hrest := (Space.read_append hstub (length_longJump divertTo)).2
  rw [hentry] at hrest
  refine Space.read_append hrest ?_
  rw [List.length_take, Space.length_read, Nat.min_eq_left hlong]

/-- While the jumper is on, the short jump leads to the stub: it is at most 31 bytes away. -/
theorem diversion_jumps
    (hd : d.Documented)
    (h : Placed d s target divertTo leading j t)
    (fits : target < 2 ^ 64)
    (hread : u.read target shortJumpSize = j.diversion) :
    JumpsShort d u target j.padding.start := by
  have hstart := h.start
  have hsize := stubSize_ofBytes h.leads
  have htwo : shortJumpSize = 2 := rfl
  rw [diversion, h.diverts] at hread
  exact jumpsShort_of_read hd hread (by omega) (by omega) (by omega) (by omega)

end Placed

/-! ## Entries -/

/-- The function's own behaviour is entered behind a start that does nothing. -/
def EntersBehind (d : Decoder) (s : Space) (target entry : Nat) : Prop :=
  ∃ n, 2 ≤ n ∧ entry = target + n ∧ d.Idles (s.read target maxLength) target n

/-- The function's own behaviour is entered at a copy of its leading instruction, from which a short jump
goes on behind the original. -/
def EntersCopy (d : Decoder) (before s : Space) (target entry : Nat) : Prop :=
  ∃ i, instructionAt d before target = some i ∧ i.relocation = .free ∧ 2 ≤ i.length ∧
    instructionAt d s entry = some { i with address := entry } ∧
    s.read entry i.length = before.read target i.length ∧
    JumpsShort d s (entry + i.length) (target + i.length)

/-- **The entry**, in any memory that holds what the stub was made of. -/
theorem Placed.enters
    {u : Space}
    (hd : d.Documented)
    (h : Placed d s target divertTo leading j t)
    (fits : target + maxLength < 2 ^ 64)
    (below : ∀ a count, a + count ≤ target → u.read a count = t.read a count) :
    EntersBehind d s target j.entry ∨ EntersCopy d s u target j.entry := by
  cases leading with
  | idle n =>
      obtain ⟨hlong, hidles⟩ := Leading.ofBytes_idle hd h.leads
      exact .inl ⟨n, hlong, h.entry, hidles⟩
  | copied n =>
      obtain ⟨i, hread, hfree, rfl, hlong⟩ := Leading.ofBytes_copied h.leads
      have hmax := Decoder.length_le_maxLength hread
      have hstart := h.start
      have hentry : j.entry + (i.length + shortJumpSize) = target := by
        rw [h.entry]
        simp only [Leading.stubSize, Leading.entry] at hstart ⊢
        omega
      obtain ⟨hcopy, hback⟩ := h.copy_read hmax
      have hcopy' : u.read j.entry i.length = (s.read target maxLength).take i.length := by
        rw [← hcopy]
        exact below _ _ (by omega)
      have hback' : u.read (j.entry + i.length) shortJumpSize = shortJump i.length := by
        rw [← hback]
        exact below _ _ (by omega)
      refine .inr ⟨i, hread, hfree, hlong, instructionAt_of_read hd hread hfree hcopy', ?_, ?_⟩
      · rw [hcopy', s.take_read target hmax]
      · simp only [maxLength] at hmax fits
        simp only [shortJumpSize] at hentry
        exact jumpsShort_of_read hd hback' (by omega) (by omega) (by omega) (by omega)

/-- **Where a diverted function goes.**  However often a jumper is switched: while it is on, the function
starts with a short jump to the stub, which jumps to the destination; the function's own behaviour is
found at the entry, behind bytes that do nothing or at a copy of the leading instruction; and from its
third byte on the function is what it was.  The jumper may be placed, and the code read, by any decoder that
is as documented. -/
theorem diverts_and_preserves
    (hd : d.Documented)
    (room : 32 ≤ target)
    (fits : target + maxLength < 2 ^ 64)
    (hto : divertTo < 2 ^ 64)
    (h : Jumper.install s target divertTo d = .ok (j, t))
    (switches : List Bool) :
    let j' := (j.switchAll t switches).1
    let u := (j.switchAll t switches).2
    j'.active = switches.getLastD false ∧
      (j'.active = true → JumpsShort d u target j'.padding.start) ∧
      JumpsLong d u j'.padding.start divertTo ∧
      (EntersBehind d s target j'.entry ∨ EntersCopy d s u target j'.entry) ∧
      ∀ x, target + shortJumpSize ≤ x → u.bytes x = s.bytes x := by
  intro j' u
  obtain ⟨leading, hplaced⟩ := exists_placed room h
  have hrun : j.Switched t j' u := (Switched.start hplaced.inactive t).run switches
  have hstart := hplaced.start
  have hdiverts := hplaced.diverts
  have hbelow : ∀ a count, a + count ≤ target → u.read a count = t.read a count := by
    intro a count hcount
    exact hrun.read_below (by omega)
  refine ⟨?_, ?_, ?_, ?_, ?_⟩
  · rw [← hplaced.inactive]
    exact active_switchAll j t switches
  · intro hactive
    have hread := (hrun.on hactive).1
    rw [hdiverts] at hread
    rw [hrun.padding]
    exact hplaced.diversion_jumps hd (by omega) hread
  · have hlong : longJumpSize ≤ leading.stubSize := leading.longJumpSize_le
    rw [hrun.padding]
    refine jumpsLong_of_read hd ?_ hto
    rw [hbelow _ _ (by omega)]
    exact hplaced.longJump_read
  · rw [hrun.entry]
    exact hplaced.enters hd fits hbelow
  · intro x hx
    rw [hrun.elsewhere x (.inr (by omega))]
    exact hplaced.behind x (by omega)

/-- A function that makes room on the stack first, behind 32 bytes of padding. -/
def framed : Space where
  regions := []
  bytes x := if x < 4096 then 0xCC else ([0x48, 0x83, 0xEC, 0x08, 0xC3].getD (x - 4096) 0x00)

theorem diverts_and_preserves_framed :
    ∃ j t, Jumper.install framed 4096 (2 ^ 47) = .ok (j, t) ∧
      32 ≤ 4096 ∧ 4096 + maxLength < 2 ^ 64 ∧ 2 ^ 47 < 2 ^ 64 ∧
      (j.switchAll t [true, false, true]).1.active = true ∧
      JumpsShort (.ofMode .bits64) (j.switchAll t [true, false, true]).2 4096 4076 ∧
      JumpsLong (.ofMode .bits64) (j.switchAll t [true, false, true]).2 4076 (2 ^ 47) ∧
      EntersCopy (.ofMode .bits64) framed (j.switchAll t [true, false, true]).2 4096 4090 ∧
      (j.switchAll t [true, false, true]).2.bytes 4098 = 0xEC := by
  have hroom : 32 ≤ 4096 := by decide
  have hfits : 4096 + maxLength < 2 ^ 64 := by decide
  have hto : 2 ^ 47 < 2 ^ 64 := by decide
  have hinstall : Jumper.install framed 4096 (2 ^ 47) =
      .ok (⟨4096, 4090, ⟨4076, 4096⟩, 0xCC, [], false⟩,
        framed.write 4076 ((Leading.copied 4).stub (framed.read 4096 maxLength) (2 ^ 47))) := rfl
  obtain ⟨hactive, hjumps, hlong, henters, hbehind⟩ :=
    diverts_and_preserves Decoder.documented_ofMode hroom hfits hto hinstall [true, false, true]
  refine ⟨_, _, hinstall, hroom, hfits, hto, hactive, hjumps hactive, hlong, henters.resolve_left ?_,
    hbehind 4098 (by decide)⟩
  rintro ⟨n, -, hentry, -⟩
  have hentry : 4090 = 4096 + n := hentry
  omega

end Jumper

end Code

end CallProfiler
