import CallProfiler.Proofs.Instruction.Documented
import CallProfiler.Proofs.Instruction.NearBranches
import CallProfiler.Proofs.Instruction.Transactions

/-!
# An instruction is decoded from its own bytes

What lies behind an instruction has no part in how it is decoded, and its address and displacement
have a part in the branch target only.  `Decided` says so for one reading step; the steps of the
decoder are taken one after another from the immediate back to the prefixes, and each puts its own
bytes in front (`Decided.prepend`).

**Main statements.**
* `decided_complete`, `decided_withOperand`, `decided_withSuffix`: the parts behind the opcode.
* `decided_decode`: whole instructions.
-/

namespace CallProfiler

open Bytes

namespace Instruction

variable {read read' : Nat → List UInt8 → Option Instruction} {narrow : Prop}
  {bytes : List UInt8} {size : Nat} {i : Instruction}

/-- Bytes in front that do not matter for the rest of the reading. -/
theorem Decided.prepend
    (h : Decided read narrow bytes size i)
    (pre : List UInt8)
    (hread : ∀ address tail, read' address (pre ++ tail) = read address tail) :
    Decided read' narrow (pre ++ bytes) (pre.length + size) i := by
  obtain ⟨front, held, rest, rfl, hsize, hholds, hwide, hagain⟩ := h
  refine ⟨pre ++ front, held, rest, ?_, ?_, hholds, hwide, ?_⟩
  · rw [List.append_assoc]
  · rw [List.length_append]
    omega
  · intro address held' rest' hlength
    rw [List.append_assoc, hread]
    exact hagain address held' rest' hlength

/-! ## Immediates -/

/-- The relocation of an instruction with an immediate. -/
def relocationWith (p : Prefixes) (form : Form) (relative : Bool) (finish : Nat)
    (held : List UInt8) : Relocation :=
  if relative then .pointerRelative else relocationOf .bits64 p form.immediate finish held

/-- An immediate is the displacement of a branch, or it has no part in the relocation. -/
theorem relocationWith_cases
    (p : Prefixes) (form : Form) (relative : Bool) :
    (∃ r, (r = .free ∨ r = .pointerRelative) ∧
      ∀ finish held, relocationWith p form relative finish held = r) ∨
    (form.immediate.bytes .bits64 p = 1 ∧ ∀ finish held,
      relocationWith p form relative finish held =
        .shortBranch (branchTarget finish (signedLittleEndian held) 64)) ∨
    ((form.immediate.bytes .bits64 p = 4 ∨
        form.immediate = .transactionTarget ∧ operandWidth .bits64 p = .two) ∧
      ∀ finish held, relocationWith p form relative finish held =
        .nearBranch (branchTarget finish (signedLittleEndian held) 64)) := by
  cases relative with
  | true =>
      exact .inl ⟨.pointerRelative, .inr rfl, fun _ _ => rfl⟩
  | false =>
      simp only [relocationWith, Bool.false_eq_true, if_false]
      cases himm : form.immediate with
      | shortTarget =>
          exact .inr (.inl ⟨rfl, fun _ _ => rfl⟩)
      | nearTarget =>
          exact .inr (.inr ⟨.inl rfl, fun _ _ => rfl⟩)
      | transactionTarget =>
          refine .inr (.inr ⟨?_, fun _ _ => rfl⟩)
          cases hwidth : operandWidth .bits64 p with
          | two =>
              exact .inr ⟨rfl, rfl⟩
          | four =>
              exact .inl (by simp [Immediate.bytes, hwidth, Width.bytes])
          | eight =>
              exact .inl (by simp [Immediate.bytes, hwidth, Width.bytes])
      | _ =>
          exact .inl ⟨.free, .inl rfl, fun _ _ => rfl⟩

theorem complete_eq_some
    {p : Prefixes} {form : Form} {address start : Nat} {inMemory relative : Bool} :
    complete .bits64 p form address start inMemory relative bytes = some i ↔
      form.immediate.bytes .bits64 p ≤ bytes.length ∧
      ¬(p.lock ∧ ¬(form.lockable ∧ inMemory)) ∧
      i = ⟨address, start + form.immediate.bytes .bits64 p,
        relocationWith p form relative (address + (start + form.immediate.bytes .bits64 p))
          (bytes.take (form.immediate.bytes .bits64 p)), form.flow, form.operation⟩ := by
  simp only [complete]
  split
  · next hshort =>
      constructor
      · intro h
        cases h
      · rintro ⟨hlong, _⟩
        omega
  · next hlong =>
      split
      · next hlock =>
          constructor
          · intro h
            cases h
          · rintro ⟨_, hfree, _⟩
            exact absurd hlock hfree
      · next hlock =>
          constructor
          · intro h
            cases h
            exact ⟨Nat.le_of_not_lt hlong, hlock, rfl⟩
          · rintro ⟨_, _, rfl⟩
            rfl

/-- Reading an immediate is decided by its bytes. -/
theorem decided_complete
    {p : Prefixes} {form : Form} {address start : Nat} {inMemory relative : Bool}
    (hmarked : form.Marked)
    (h : complete .bits64 p form address start inMemory relative bytes = some i) :
    Decided (fun address bytes => complete .bits64 p form address start inMemory relative bytes)
      (i.flow = .transaction ∧ operandWidth .bits64 p = .two)
      bytes (i.length - start) i := by
  obtain ⟨hwidth, hlock, rfl⟩ := complete_eq_some.1 h
  have hcases := relocationWith_cases p form relative
  simp only [Nat.add_sub_cancel_left]
  generalize hw : form.immediate.bytes .bits64 p = width at *
  have htaken : (bytes.take width).length = width := List.length_take_of_le hwidth
  have hagain : ∀ address' front rest', front.length = width →
      complete .bits64 p form address' start inMemory relative (front ++ rest') =
        some ⟨address', start + width,
          relocationWith p form relative (address' + (start + width)) front, form.flow,
          form.operation⟩ := by
    intro address' front rest' hlength
    refine complete_eq_some.2 ⟨?_, hlock, ?_⟩
    · rw [List.length_append, hlength, hw]
      omega
    · rw [hw, ← hlength, List.take_left]
  rcases hcases with ⟨r, hr, hsame⟩ | ⟨hone, hsame⟩ | ⟨hfour, hsame⟩
  · -- the immediate has no part in the relocation
    refine ⟨bytes.take width, [], bytes.drop width, (List.take_append_drop _ _).symm, htaken, ?_,
      ?_, ?_⟩
    · rcases hr with rfl | rfl <;> simp [Holds, hsame]
    · intro target hnear
      rcases hr with rfl | rfl <;> simp [hsame] at hnear
    · intro address' held' rest' hlength
      rw [List.length_eq_zero_iff.1 hlength]
      refine (hagain _ _ _ htaken).trans ?_
      rcases hr with rfl | rfl <;> simp [withDisplacement, hsame, Relocation.mapTarget]
  · refine ⟨[], bytes.take width, bytes.drop width, (List.take_append_drop _ _).symm, ?_, ?_, ?_, ?_⟩
    · rw [htaken]
      exact Nat.zero_add width
    · simp only [Holds, hsame, finish]
      exact ⟨htaken.trans hone, trivial⟩
    · intro target hnear
      simp [hsame] at hnear
    · intro address' held' rest' hlength
      refine (hagain _ _ _ (hlength.trans htaken)).trans ?_
      simp [withDisplacement, hsame, Relocation.mapTarget]
  · refine ⟨[], bytes.take width, bytes.drop width, (List.take_append_drop _ _).symm, ?_, ?_, ?_, ?_⟩
    · rw [htaken]
      exact Nat.zero_add width
    · simp only [Holds, hsame, finish]
    · intro target hnear
      rw [htaken]
      exact hfour.imp_right fun hnarrow => ⟨hmarked hnarrow.1, hnarrow.2⟩
    · intro address' held' rest' hlength
      refine (hagain _ _ _ (hlength.trans htaken)).trans ?_
      simp [withDisplacement, hsame, Relocation.mapTarget]

theorem displacementBytes_eq_zero
    {width : Width} {m : OperandByte} {next : Option UInt8}
    (h : displacementBytes width m next = 0)
    (next' : Option UInt8) :
    displacementBytes width m next' = 0 := by
  unfold displacementBytes at h ⊢
  grind

/-- The displacement is as long before other bytes. -/
theorem displacementBytes_take
    {width : Width} {m : OperandByte} {rest : List UInt8} {count : Nat}
    (h : displacementBytes width m rest.head? = count)
    (hlong : count ≤ rest.length)
    (tail : List UInt8) :
    displacementBytes width m (rest.take count ++ tail).head? = count := by
  cases count with
  | zero =>
      exact displacementBytes_eq_zero h _
  | succ n =>
      cases rest with
      | nil =>
          cases hlong
      | cons b rest =>
          exact h

/-- Reading the operand bytes and what follows them is decided by these bytes. -/
theorem decided_withOperand
    {p : Prefixes} {select : OperandByte → Option Form} {address start : Nat}
    (hmarked : ∀ m form, select m = some form → form.Marked)
    (h : withOperand .bits64 p select address start bytes = some i) :
    Decided (fun address bytes => withOperand .bits64 p select address start bytes)
      (i.flow = .transaction ∧ operandWidth .bits64 p = .two)
      bytes (i.length - start) i := by
  cases bytes with
  | nil =>
      cases h
  | cons byte rest =>
      simp only [withOperand, Option.bind_eq_bind, Option.bind_eq_some_iff] at h
      obtain ⟨form, hform, h⟩ := h
      have hform' := hmarked _ _ hform
      split at h
      · next hregisters =>
          have hlength := (length_complete h).1
          have hsize : i.length - start = [byte].length + (i.length - (start + 1)) := by
            rw [List.length_singleton]
            omega
          rw [hsize]
          refine (decided_complete hform' h).prepend [byte] ?_
          intro address' tail
          simp only [List.singleton_append, withOperand, Option.bind_eq_bind, hform,
            Option.bind_some, if_pos hregisters]
      · next hoperand =>
          generalize hcount : displacementBytes (addressWidth .bits64 p) (OperandByte.ofByte byte)
            rest.head? = count at h
          split at h
          · cases h
          · next hlong =>
              have hlong := Nat.le_of_not_lt hlong
              have hlength := (length_complete h).1
              have hpre : (byte :: rest.take count).length = 1 + count := by
                rw [List.length_cons, List.length_take_of_le hlong]
                omega
              have hsize : i.length - start =
                  (byte :: rest.take count).length + (i.length - (start + 1 + count)) := by
                rw [hpre]
                omega
              have hbytes : byte :: rest = (byte :: rest.take count) ++ rest.drop count := by
                rw [List.cons_append, List.take_append_drop]
              rw [hsize, hbytes]
              refine (decided_complete hform' h).prepend (byte :: rest.take count) ?_
              intro address' tail
              have hsame := displacementBytes_take hcount hlong tail
              have htaken : (rest.take count).length = count := List.length_take_of_le hlong
              have henough : ¬ (rest.take count ++ tail).length < count := by
                rw [List.length_append, htaken]
                omega
              have hdrop : (rest.take count ++ tail).drop count = tail := by
                rw [List.drop_append_of_le_length (Nat.le_of_eq htaken.symm), List.drop_take_self,
                  List.nil_append]
              simp only [List.cons_append, withOperand, Option.bind_eq_bind, hform,
                Option.bind_some, if_neg hoperand, hsame, if_neg henough, hdrop]

/-! ## The byte behind the operands -/

/-- An instruction with a plain byte behind it is no branch. -/
theorem not_branch_of_complete
    {p : Prefixes} {address start : Nat} {inMemory relative : Bool}
    (h : complete .bits64 p { immediate := .byte } address start inMemory relative bytes = some i) :
    i.relocation = .free ∨ i.relocation = .pointerRelative := by
  obtain ⟨_, _, rfl⟩ := complete_eq_some.1 h
  cases relative with
  | true =>
      exact .inr rfl
  | false =>
      exact .inl rfl

theorem not_branch_of_withOperand
    {p : Prefixes} {address start : Nat}
    (h : withOperand .bits64 p (fun _ => some { immediate := .byte }) address start bytes = some i) :
    i.relocation = .free ∨ i.relocation = .pointerRelative := by
  cases bytes with
  | nil =>
      cases h
  | cons byte rest =>
      simp only [withOperand, Option.bind_eq_bind, Option.bind_some] at h
      split at h
      · exact not_branch_of_complete h
      · split at h
        · cases h
        · exact not_branch_of_complete h

theorem head?_drop_append
    {front tail : List UInt8} {n : Nat}
    (h : n < front.length) :
    ((front ++ tail).drop n).head? = (front.drop n).head? := by
  rw [List.drop_append_of_le_length (Nat.le_of_lt h), List.head?_append]
  have hleft : front.drop n ≠ [] := by
    simpa using h
  obtain ⟨b, hb⟩ := Option.isSome_iff_exists.1 (List.isSome_head?.2 hleft)
  rw [hb]
  rfl

theorem decided_withSuffix
    {p : Prefixes} {address start : Nat}
    (h : withSuffix .bits64 p address start bytes = some i) :
    Decided (fun address bytes => withSuffix .bits64 p address start bytes)
      (i.flow = .transaction ∧ operandWidth .bits64 p = .two)
      bytes (i.length - start) i := by
  simp only [withSuffix, Option.bind_eq_bind, Option.bind_eq_some_iff] at h
  obtain ⟨j, hj, suffix, hsuffix, h⟩ := h
  split at h
  · next hknown =>
      cases h
      have hmarked : ∀ m form, (fun _ => some { immediate := .byte } : OperandByte → Option Form) m
          = some form → form.Marked := by
        intro m form hform
        cases hform
        intro himm
        cases himm
      obtain ⟨front, held, rest, rfl, hsize, hholds, hwide, hagain⟩ := decided_withOperand hmarked hj
      have hstart := start_lt_withOperand hj
      obtain rfl : held = [] := by
        unfold Holds at hholds
        rcases not_branch_of_withOperand hj with hfree | hrelative
        · rw [hfree] at hholds
          exact hholds
        · rw [hrelative] at hholds
          exact hholds
      refine ⟨front, [], rest, rfl, hsize, hholds, hwide, ?_⟩
      intro address' held' rest' hlength
      have hlast : i.length - start - 1 < front.length := by
        simp only [List.length_nil] at hsize
        omega
      have hsame : (i.withDisplacement address' held').length = i.length := rfl
      rw [List.nil_append, head?_drop_append hlast] at hsuffix
      simp only [withSuffix, Option.bind_eq_bind, hagain address' held' rest' hlength,
        Option.bind_some, hsame, head?_drop_append hlast, hsuffix, if_pos hknown]
  · cases h

/-! ## Opcodes and prefixes -/

/-- The bytes of an opcode select the same entry before other bytes. -/
theorem readOpcode_append
    {mode : Mode} {p : Prefixes} {entry : Entry} {rest : List UInt8}
    (h : readOpcode mode p bytes = some (entry, size, rest))
    (hplain : ∀ tail, bytes ≠ 0x0F :: 0x0F :: tail) :
    ∃ b more, bytes = b :: (more ++ rest) ∧ more.length + 1 = size ∧ ∀ tail,
      readOpcode mode p (b :: (more ++ tail)) = some (entry, size, tail) ∧
      ∀ tail', b :: (more ++ tail) ≠ 0x0F :: 0x0F :: tail' := by
  unfold readOpcode at h
  split at h
  · cases h
  · split at h
    · cases h
    · next code tail =>
        cases h
        refine ⟨0x0F, [0x38, code], rfl, rfl, ?_⟩
        intro tail
        refine ⟨rfl, ?_⟩
        intro tail' heq
        cases heq
    · next code tail =>
        cases h
        refine ⟨0x0F, [0x3A, code], rfl, rfl, ?_⟩
        intro tail
        refine ⟨rfl, ?_⟩
        intro tail' heq
        cases heq
    · cases h
    · cases h
    · next code tail hextended himmediate hextendedEnd himmediateEnd =>
        have hno38 : code ≠ 0x38 := by
          rintro rfl
          cases tail with
          | nil => exact hextendedEnd rfl rfl
          | cons next rest => exact hextended next rest rfl rfl
        have hno3A : code ≠ 0x3A := by
          rintro rfl
          cases tail with
          | nil => exact himmediateEnd rfl rfl
          | cons next rest => exact himmediate next rest rfl rfl
        cases h
        refine ⟨0x0F, [code], rfl, rfl, ?_⟩
        intro tail
        constructor
        · simp only [List.singleton_append]
          unfold readOpcode
          grind
        · intro tail' heq
          cases heq
          exact hplain _ rfl
  · next code tail hescape =>
      cases h
      refine ⟨code, [], rfl, rfl, ?_⟩
      intro tail
      constructor
      · simp only [List.nil_append]
        unfold readOpcode
        grind
      · intro tail' heq
        cases heq
        exact hescape rfl

theorem scanFrom_append
    {mode : Mode} {p q : Prefixes} {b : UInt8} {code : List UInt8}
    (h : Prefixes.scanFrom mode p bytes = (q, b :: code)) :
    ∃ pre, bytes = pre ++ b :: code ∧
      ∀ tail, Prefixes.scanFrom mode p (pre ++ b :: tail) = (q, b :: tail) := by
  induction bytes generalizing p with
  | nil =>
      cases h
  | cons first rest ih =>
      rw [Prefixes.scanFrom] at h
      cases hextend : p.extend mode first with
      | none =>
          rw [hextend] at h
          cases h
          refine ⟨[], rfl, ?_⟩
          intro tail
          rw [List.nil_append, Prefixes.scanFrom, hextend]
      | some next =>
          rw [hextend] at h
          obtain ⟨pre, rfl, hagain⟩ := ih h
          refine ⟨first :: pre, rfl, ?_⟩
          intro tail
          rw [List.cons_append, Prefixes.scanFrom, hextend]
          exact hagain tail

/-- Reading everything behind the prefixes. -/
def readCode (mode : Mode) (p : Prefixes) (address : Nat) (code : List UInt8) : Option Instruction :=
  match code with
  | 0x0F :: 0x0F :: rest => withSuffix mode p address (p.count + 2) rest
  | _ =>
    match readOpcode mode p code with
    | none => none
    | some (.invalid, _, _) => none
    | some (.plain form, size, rest) =>
      complete mode p form address (p.count + size) false false rest
    | some (.withOperand select, size, rest) =>
      withOperand mode p select address (p.count + size) rest

/-- Reading an instruction without a bound on the bytes that are looked at. -/
def decodeUncut (mode : Mode) (address : Nat) (bytes : List UInt8) : Option Instruction :=
  readCode mode (Prefixes.scan mode bytes).1 address (Prefixes.scan mode bytes).2

theorem decode_eq
    (bytes : List UInt8) (address : Nat) (mode : Mode) :
    decode bytes address mode = decodeUncut mode address (bytes.take maxLength) := rfl

theorem readCode_of_readOpcode
    {mode : Mode} {p : Prefixes} {address : Nat} {code : List UInt8}
    (hplain : ∀ tail, code ≠ 0x0F :: 0x0F :: tail) :
    readCode mode p address code =
      match readOpcode mode p code with
      | none => none
      | some (.invalid, _, _) => none
      | some (.plain form, size, rest) =>
        complete mode p form address (p.count + size) false false rest
      | some (.withOperand select, size, rest) =>
        withOperand mode p select address (p.count + size) rest := by
  unfold readCode
  split
  · next tail =>
      exact absurd rfl (hplain tail)
  · rfl

/-- Behind the opcode the reading is decided by the bytes of the instruction. -/
theorem decided_readCode
    {p : Prefixes} {address : Nat} {code : List UInt8}
    (h : readCode .bits64 p address code = some i) :
    ∃ b more rest read, code = b :: (more ++ rest) ∧
      (∀ address tail, readCode .bits64 p address (b :: (more ++ tail)) = read address tail) ∧
      p.count + (more.length + 1) ≤ i.length ∧
      Decided read (i.flow = .transaction ∧ operandWidth .bits64 p = .two) rest
        (i.length - (p.count + (more.length + 1))) i := by
  by_cases hpair : ∃ rest, code = 0x0F :: 0x0F :: rest
  · obtain ⟨rest, rfl⟩ := hpair
    have hread : withSuffix .bits64 p address (p.count + 2) rest = some i := h
    exact ⟨0x0F, [0x0F], rest, _, rfl, fun _ _ => rfl, Nat.le_of_lt (start_lt_withSuffix hread),
      decided_withSuffix hread⟩
  · have hplain : ∀ tail, code ≠ 0x0F :: 0x0F :: tail := fun tail heq => hpair ⟨tail, heq⟩
    rw [readCode_of_readOpcode hplain] at h
    split at h
    · cases h
    · cases h
    · next form size rest hopcode =>
        obtain ⟨b, more, rfl, rfl, hagain⟩ := readOpcode_append hopcode hplain
        refine ⟨b, more, rest, _, rfl, ?_, ?_, decided_complete (marked_readOpcode hopcode) h⟩
        · intro address' tail
          rw [readCode_of_readOpcode (hagain tail).2, (hagain tail).1]
        · rw [(length_complete h).1]
          exact Nat.le_add_right ..
    · next select size rest hopcode =>
        obtain ⟨b, more, rfl, rfl, hagain⟩ := readOpcode_append hopcode hplain
        refine ⟨b, more, rest, _, rfl, ?_, Nat.le_of_lt (start_lt_withOperand h),
          decided_withOperand (marked_readOpcode hopcode) h⟩
        intro address' tail
        rw [readCode_of_readOpcode (hagain tail).2, (hagain tail).1]

/-- An instruction is decoded from its own bytes alone.  The last of them hold the displacement of a
branch: one byte for a short branch and four for a near branch, with the one exception of a narrow
target. -/
theorem decided_decode
    {address : Nat}
    (h : decode bytes address .bits64 = some i) :
    Decided (fun address bytes => decode bytes address .bits64) (i.HasNarrowTarget bytes) bytes
      i.length i := by
  have hmax := decode_length_le_maxLength h
  have hcount := count_scan .bits64 (bytes.take maxLength)
  rw [decode_eq, decodeUncut] at h
  generalize hscan : Prefixes.scan .bits64 (bytes.take maxLength) = scanned at h hcount
  obtain ⟨p, code⟩ := scanned
  obtain ⟨b, more, rest, read, rfl, hread, hstart, hdecided⟩ := decided_readCode h
  obtain ⟨pre, htaken, hagain⟩ := scanFrom_append hscan
  have hpre : pre.length = p.count := by
    have hlength := congrArg List.length htaken
    simp only [List.length_append, List.length_cons] at hlength hcount
    omega
  have hfront : (pre ++ b :: more).length = p.count + (more.length + 1) := by
    rw [List.length_append, List.length_cons, hpre]
  have hread' : ∀ address tail,
      decodeUncut .bits64 address ((pre ++ b :: more) ++ tail) = read address tail := by
    intro address' tail
    have htail := hagain (more ++ tail)
    simp only [decodeUncut, Prefixes.scan, List.append_assoc, List.cons_append, htail]
    exact hread address' tail
  obtain ⟨front, held, behind, hbytes, hsize, hholds, hwide, hsame⟩ :=
    hdecided.prepend (pre ++ b :: more) hread'
  rw [List.append_assoc, List.cons_append, ← htaken] at hbytes
  rw [hfront, Nat.add_sub_cancel' hstart] at hsize
  refine ⟨front, held, behind ++ bytes.drop maxLength, ?_, hsize, hholds, ?_, ?_⟩
  · rw [← List.append_assoc held, ← List.append_assoc, ← hbytes, List.take_append_drop]
  · intro target hnear
    refine (hwide target hnear).imp_right fun hnarrow => ?_
    rw [HasNarrowTarget, hscan]
    exact hnarrow
  · intro address' held' rest' hlength
    -- only so many bytes are looked at, and the instruction fits into them
    have hfits : front.length + held'.length ≤ maxLength := by
      omega
    have htake : (front ++ (held' ++ rest')).take maxLength =
        front ++ (held' ++ rest'.take (maxLength - (front.length + held'.length))) := by
      rw [← List.append_assoc, List.take_append, List.take_of_length_le (by simpa using hfits),
        List.length_append, List.append_assoc]
    have hagain' :=
      hsame address' held' (rest'.take (maxLength - (front.length + held'.length))) hlength
    rw [← htake] at hagain'
    exact (decode_eq ..).trans hagain'

end Instruction
end CallProfiler
