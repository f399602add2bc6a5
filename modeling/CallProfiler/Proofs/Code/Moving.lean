import CallProfiler.Proofs.Code.Lengths
import CallProfiler.Proofs.Instruction.Decoders

/-!
# Moved instructions mean the same

Instructions that are moved are read at their new place as copies of the originals: they have the same
lengths, branches inside the moved range lead to the same place of the copy, and all other branches lead
where they led before.  This is so for every decoder that is as documented.  The exception is a branch out
of the range whose displacement is two bytes long (`Instruction.HasNarrowTarget`): four bytes are written
for every displacement.

**Main statements.**
* `moveInstruction_eq_error`: what keeps an instruction from being moved.
* `first_moveInstruction`: how a moved instruction is read.
* `moveRun_eq_error`, `spells_moveRun`: the same for runs.
* `length_eq_of_moveRun`: how long a moved run is.
* `moveInstructions_faithful`: moving the start of a function.
-/

namespace CallProfiler.Code

open Bytes Instruction

theorem map_eq_error
    {ε α β : Type} {x : Except ε α} {f : α → β} {e : ε} :
    x.map f = .error e ↔ x = .error e := by
  cases x with
  | error e' =>
      simp [Except.map]
  | ok a =>
      simp [Except.map]

/-! ## Displacements -/

theorem branchTarget_lt
    (origin : Nat) (d : Int) :
    branchTarget origin d 64 < 2 ^ 64 := by
  unfold branchTarget
  omega

/-- The same displacement counted from elsewhere. -/
theorem branchTarget_shift
    {origin origin' base base' : Nat} {d : Int}
    (hshift : origin + base' = origin' + base)
    (hbase : base ≤ branchTarget origin d 64)
    (hend : base' + (branchTarget origin d 64 - base) < 2 ^ 64) :
    branchTarget origin' d 64 = base' + (branchTarget origin d 64 - base) := by
  unfold branchTarget at *
  omega

/-- The displacement that is computed for a target leads there. -/
theorem branchTarget_distance
    (origin : Nat) {target : Nat}
    (h : target < 2 ^ 64) :
    branchTarget origin (distance origin target) 64 = target := by
  unfold branchTarget distance
  simp only [Int.bmod_def]
  omega

theorem signedLittleEndian_displacement
    {origin target : Nat} {data : List UInt8}
    (h : displacement origin target = .ok data) :
    signedLittleEndian data = distance origin target := by
  unfold displacement displacement? at h
  simp only at h
  split at h
  · next hfits =>
      cases h
      rw [signedLittleEndian, littleEndian_littleEndianBytes, length_littleEndianBytes, Int.bmod_def]
      omega
  · cases h

theorem displacement_eq_error
    {origin target : Nat} {f : Fault} :
    displacement origin target = .error f ↔
      ¬(-2 ^ 31 ≤ distance origin target ∧ distance origin target < 2 ^ 31) ∧
        f = .outOfRange origin target := by
  unfold displacement displacement?
  simp only
  split
  · next hfits =>
      constructor
      · intro h
        cases h
      · rintro ⟨hfar, _⟩
        exact absurd hfits hfar
  · next hfar =>
      constructor
      · intro h
        cases h
        exact ⟨hfar, rfl⟩
      · rintro ⟨_, rfl⟩
        rfl

/-! ## The moved range -/

variable {d : Decoder} {bytes source moved : List UInt8} {address destination need : Nat}
  {run prologue : List Instruction} {i : Instruction} {range : Memory.Range} {f : Fault}

/-- A run takes the addresses from its first to behind its last instruction. -/
theorem movedRange_eq
    (h : d.Spells bytes address run)
    (hrun : run ≠ []) :
    movedRange run = ⟨address, address + runLength run⟩ := by
  have hlast := Decoder.finish_getLast h hrun
  cases run with
  | nil =>
      exact absurd rfl hrun
  | cons first rest =>
      have hat := (Decoder.of_first h.1).1
      rw [movedRange, hlast, hat]

/-! ## One instruction -/

/-- Where an address of the moved range lies in the copy. -/
def relocated (range : Memory.Range) (destination a : Nat) : Nat :=
  destination + (a - range.start)

/-- An instruction as it stands in the copy: a target inside the range is at the same place of the
copy, and any other target is the same. -/
def copied (range : Memory.Range) (destination : Nat) (i : Instruction) : Instruction :=
  { i with
    address := relocated range destination i.address
    relocation := i.relocation.mapTarget fun target =>
      if range.contains target then relocated range destination target else target }

theorem runLength_copied
    (range : Memory.Range) (destination : Nat) (run : List Instruction) :
    runLength (run.map (copied range destination)) = runLength run := by
  rw [runLength, List.map_map]
  rfl

/-- A near branch with this target outside the range. -/
def LeavesTo (range : Memory.Range) (i : Instruction) (target : Nat) : Prop :=
  i.relocation = .nearBranch target ∧ range.contains target = false

/-- What keeps an instruction from being moved. -/
inductive Obstructs (range : Memory.Range) (destination : Nat) (i : Instruction) : Fault → Prop where
  | breakpoint
      (hstop : i.isBreakpoint = true) :
      Obstructs range destination i (.immovable i.address .breakpoint)
  | pointerRelative
      (hplain : i.isBreakpoint = false)
      (hrelative : i.relocation = .pointerRelative) :
      Obstructs range destination i (.immovable i.address .pointerRelative)
  | shortLeaving
      {target : Nat}
      (hplain : i.isBreakpoint = false)
      (hshort : i.relocation = .shortBranch target)
      (hout : range.contains target = false) :
      Obstructs range destination i (.immovable i.address .leavingShortJump)
  | outOfReach
      {target : Nat}
      (hplain : i.isBreakpoint = false)
      (hleaves : LeavesTo range i target)
      (hfar : ¬(-2 ^ 31 ≤ distance (relocated range destination i.address + i.length) target ∧
        distance (relocated range destination i.address + i.length) target < 2 ^ 31)) :
      Obstructs range destination i
        (.outOfRange (relocated range destination i.address + i.length) target)

theorem moveInstruction_eq_error
    (range : Memory.Range) (destination : Nat) (i : Instruction) (bytes : List UInt8) (f : Fault) :
    moveInstruction range i bytes (relocated range destination i.address) = .error f ↔
      Obstructs range destination i f := by
  constructor
  · intro h
    unfold moveInstruction at h
    split at h
    · next hstop =>
        cases h
        exact .breakpoint hstop
    · next hstop =>
        have hplain := Bool.eq_false_iff.2 hstop
        split at h
        · cases h
        · next hrelative =>
            cases h
            exact .pointerRelative hplain hrelative
        · next target hshort =>
            split at h
            · cases h
            · next hout =>
                cases h
                exact .shortLeaving hplain hshort (Bool.eq_false_iff.2 hout)
        · next target hnear =>
            split at h
            · cases h
            · next hout =>
                obtain ⟨hfar, rfl⟩ := displacement_eq_error.1 (map_eq_error.1 h)
                exact .outOfReach hplain ⟨hnear, Bool.eq_false_iff.2 hout⟩ hfar
  · intro h
    unfold moveInstruction
    cases h with
    | breakpoint hstop =>
        rw [if_pos hstop]
    | pointerRelative hplain hrelative =>
        rw [if_neg (Bool.eq_false_iff.1 hplain), hrelative]
    | shortLeaving hplain hshort hout =>
        rw [if_neg (Bool.eq_false_iff.1 hplain), hshort]
        exact if_neg (Bool.eq_false_iff.1 hout)
    | outOfReach hplain hleaves hfar =>
        rw [if_neg (Bool.eq_false_iff.1 hplain), hleaves.1]
        refine (if_neg (Bool.eq_false_iff.1 hleaves.2)).trans ?_
        exact map_eq_error.2 (displacement_eq_error.2 ⟨hfar, rfl⟩)

/-- Only the displacement of a near branch that leaves the range is written anew. -/
theorem moveInstruction_eq_ok
    (h : moveInstruction range i bytes address = .ok moved) :
    ((∀ target, ¬ LeavesTo range i target) ∧ i.relocation ≠ .pointerRelative ∧
      (∀ target, i.relocation = .shortBranch target → range.contains target = true) ∧
      moved = bytes) ∨
    ∃ target data, LeavesTo range i target ∧
      displacement (address + i.length) target = .ok data ∧
      moved = bytes.take (bytes.length - 4) ++ data := by
  unfold moveInstruction at h
  split at h
  · cases h
  · split at h
    · next hfree =>
        cases h
        left
        simp [LeavesTo, hfree]
    · cases h
    · next target hshort =>
        split at h
        · next hin =>
            cases h
            left
            simp [LeavesTo, hshort, hin]
        · cases h
    · next target hnear =>
        split at h
        · next hin =>
            cases h
            left
            simp [LeavesTo, hnear, hin]
        · next hout =>
            obtain ⟨data, hdata, rfl⟩ := map_eq_ok.1 h
            exact .inr ⟨target, data, ⟨hnear, Bool.eq_false_iff.2 hout⟩, hdata, rfl⟩

theorem length_eq_of_moveInstruction
    (near : ∀ target, i.relocation = .nearBranch target → 4 ≤ i.length)
    (taken : bytes.length = i.length)
    (h : moveInstruction range i bytes address = .ok moved) :
    moved.length = i.length := by
  rcases moveInstruction_eq_ok h with ⟨-, -, -, rfl⟩ | ⟨target, data, hleaves, hdata, rfl⟩
  · exact taken
  · have hfour := near target hleaves.1
    rw [List.length_append, List.length_take, length_displacement hdata]
    omega

/-- The same displacement leads to the same place of the copy. -/
theorem branchTarget_relocated
    {target : Nat} {offset : Int}
    (hstart : range.start ≤ i.address)
    (hend : destination + (range.finish - range.start) ≤ Memory.addressLimit)
    (htarget : target = branchTarget i.finish offset 64)
    (hin : range.contains target = true) :
    branchTarget (relocated range destination i.address + i.length) offset 64 =
      relocated range destination target := by
  obtain ⟨hlow, hhigh⟩ := Memory.Range.contains_iff.1 hin
  have hshift : i.finish + destination =
      relocated range destination i.address + i.length + range.start := by
    simp only [finish, relocated]
    omega
  have hbound : destination + (target - range.start) < 2 ^ 64 := by
    simp only [Memory.addressLimit] at hend
    omega
  subst htarget
  exact branchTarget_shift hshift hlow hbound

theorem withDisplacement_eq_copied
    {held : List UInt8}
    (hstart : range.start ≤ i.address)
    (hend : destination + (range.finish - range.start) ≤ Memory.addressLimit)
    (hholds : i.Holds held)
    (hstays : ∀ target, ¬ LeavesTo range i target)
    (hshort : ∀ target, i.relocation = .shortBranch target → range.contains target = true) :
    i.withDisplacement (relocated range destination i.address) held =
      copied range destination i := by
  unfold Holds at hholds
  unfold withDisplacement copied
  cases hrelocation : i.relocation with
  | free =>
      rfl
  | pointerRelative =>
      rfl
  | shortBranch target =>
      have hin := hshort target hrelocation
      rw [hrelocation] at hholds
      have htarget := branchTarget_relocated hstart hend hholds.2 hin
      simp only [Relocation.mapTarget, hin, htarget, if_true]
  | nearBranch target =>
      have hin : range.contains target = true := by
        cases hout : range.contains target with
        | true => rfl
        | false => exact absurd ⟨hrelocation, hout⟩ (hstays target)
      rw [hrelocation] at hholds
      have htarget := branchTarget_relocated hstart hend hholds hin
      simp only [Relocation.mapTarget, hin, htarget, if_true]

/-- A moved instruction is read as the copy of the original. -/
theorem first_moveInstruction
    (hd : d.Documented)
    (h : d.first bytes address = some i)
    (hstart : range.start ≤ address)
    (hend : destination + (range.finish - range.start) ≤ Memory.addressLimit)
    (hwide : ∀ target, LeavesTo range i target → ¬ i.HasNarrowTarget bytes)
    (hmove : moveInstruction range i (bytes.take i.length) (relocated range destination address) =
      .ok moved) :
    moved.length = i.length ∧
    ((∀ target, ¬ LeavesTo range i target) → moved = bytes.take i.length) ∧
    ∀ behind, d.first (moved ++ behind) (relocated range destination address) =
      some (copied range destination i) := by
  have hat := (Decoder.of_first h).1
  obtain ⟨front, held, rest, hbytes, hsize, hholds, hfour, hagain⟩ := hd.decided h
  have htake : bytes.take i.length = front ++ held := by
    rw [hbytes, ← hsize, ← List.append_assoc, ← List.length_append, List.take_left]
  rw [htake] at hmove ⊢
  rcases moveInstruction_eq_ok hmove with ⟨hstays, hrelative, hshort, rfl⟩ |
      ⟨target, data, hleaves, hdata, rfl⟩
  · refine ⟨by rw [List.length_append, hsize], fun _ => rfl, ?_⟩
    intro behind
    rw [List.append_assoc]
    refine (hagain _ held behind rfl).trans ?_
    rw [← hat, withDisplacement_eq_copied (hat ▸ hstart) hend hholds hstays hshort]
  · have hheld : held.length = 4 :=
      (hfour target hleaves.1).resolve_right (hwide target hleaves)
    have hlength := length_displacement hdata
    have hfront : (front ++ held).take ((front ++ held).length - 4) = front := by
      rw [List.length_append, hheld, Nat.add_sub_cancel, List.take_left]
    rw [hfront]
    refine ⟨?_, fun hstays => absurd hleaves (hstays target), ?_⟩
    · rw [List.length_append, hlength, ← hheld, hsize]
    · intro behind
      rw [List.append_assoc]
      refine (hagain _ data behind (hlength.trans hheld.symm)).trans ?_
      have hbound : target < 2 ^ 64 := by
        have hnear := hholds
        rw [Holds, hleaves.1] at hnear
        exact hnear ▸ branchTarget_lt ..
      have htarget :=
        branchTarget_distance (relocated range destination address + i.length) hbound
      rw [← signedLittleEndian_displacement hdata] at htarget
      simp only [withDisplacement, copied, hleaves.1, Relocation.mapTarget, htarget, hleaves.2, hat]
      rfl

/-! ## All instructions of a run -/

/-- The first instruction of a run that cannot be moved, as a fault. -/
def FirstObstacle (range : Memory.Range) (destination : Nat) (run : List Instruction) (f : Fault) :
    Prop :=
  ∃ before i after, run = before ++ i :: after ∧
    (∀ j ∈ before, ∀ g, ¬ Obstructs range destination j g) ∧ Obstructs range destination i f

theorem not_firstObstacle_nil :
    ¬ FirstObstacle range destination [] f := by
  rintro ⟨before, i, after, heq, -⟩
  cases before <;> cases heq

theorem firstObstacle_cons :
    FirstObstacle range destination (i :: run) f ↔
      Obstructs range destination i f ∨
        (∀ g, ¬ Obstructs range destination i g) ∧ FirstObstacle range destination run f := by
  constructor
  · rintro ⟨before, j, after, heq, hclear, hobstructs⟩
    cases before with
    | nil =>
        cases heq
        exact .inl hobstructs
    | cons first before =>
        cases heq
        refine .inr ⟨hclear i List.mem_cons_self, before, j, after, rfl, ?_, hobstructs⟩
        exact fun k hk => hclear k (List.mem_cons_of_mem i hk)
  · rintro (hobstructs | ⟨hfirst, before, j, after, rfl, hclear, hobstructs⟩)
    · refine ⟨[], i, run, rfl, ?_, hobstructs⟩
      intro j hj
      cases hj
    · refine ⟨i :: before, j, after, rfl, ?_, hobstructs⟩
      intro k hk
      rcases List.mem_cons.1 hk with rfl | hk
      · exact hfirst
      · exact hclear k hk

theorem relocated_add
    {a n : Nat}
    (h : range.start ≤ a) :
    relocated range destination (a + n) = relocated range destination a + n := by
  simp only [relocated]
  omega

theorem moveRun_eq_error
    (hread : d.Spells source address run)
    (hstart : range.start ≤ address)
    (destination : Nat) (f : Fault) :
    moveRun range (relocated range destination address) run source = .error f ↔
      FirstObstacle range destination run f := by
  induction run generalizing source address with
  | nil =>
      exact ⟨fun h => (nomatch h), fun h => absurd h not_firstObstacle_nil⟩
  | cons i rest ih =>
      have hat := (Decoder.of_first hread.1).1
      have hrest := ih hread.2 (Nat.le_trans hstart (Nat.le_add_right address i.length))
      have hfirst (g : Fault) := moveInstruction_eq_error range destination i (source.take i.length) g
      rw [hat] at hfirst
      rw [firstObstacle_cons, ← hrest, moveRun, relocated_add hstart]
      cases hmoved : moveInstruction range i (source.take i.length)
          (relocated range destination address) with
      | error e =>
          rw [hmoved] at hfirst
          have he := (hfirst e).1 rfl
          constructor
          · intro h
            cases h
            exact .inl he
          · rintro (hf | ⟨hclear, _⟩)
            · exact (congrArg (· >>= _) ((hfirst f).2 hf))
            · exact absurd he (hclear e)
      | ok moved =>
          rw [hmoved] at hfirst
          have hclear (g : Fault) : ¬ Obstructs range destination i g := by
            intro hg
            cases (hfirst g).2 hg
          constructor
          · intro h
            refine .inr ⟨hclear, ?_⟩
            cases hmore : moveRun range (relocated range destination address + i.length) rest
                (source.drop i.length) with
            | error e =>
                rw [hmore] at h
                exact h
            | ok more =>
                rw [hmore] at h
                cases h
          · rintro (hf | ⟨_, hmore⟩)
            · exact absurd hf (hclear f)
            · rw [hmore]
              rfl

/-- The bytes of an instruction among the bytes that begin at `start`. -/
def bytesOf (code : List UInt8) (start : Nat) (i : Instruction) : List UInt8 :=
  (code.drop (i.address - start)).take i.length

theorem bytesOf_append
    {front code : List UInt8} {start : Nat}
    (h : start + front.length ≤ i.address) :
    bytesOf (front ++ code) start i = bytesOf code (start + front.length) i := by
  have hoffset : i.address - start = front.length + (i.address - (start + front.length)) := by
    omega
  rw [bytesOf, bytesOf, hoffset, ← List.drop_drop, List.drop_left]

theorem bytesOf_drop
    {code : List UInt8} {start size : Nat}
    (h : start + size ≤ i.address) :
    bytesOf (code.drop size) (start + size) i = bytesOf code start i := by
  have hoffset : i.address - start = size + (i.address - (start + size)) := by
    omega
  rw [bytesOf, bytesOf, hoffset, ← List.drop_drop]

/-- Moved instructions take as many bytes as they took. -/
theorem length_eq_of_moveRun
    (near : d.NearBranchesLong)
    (hread : d.Spells source address run)
    (h : moveRun range destination run source = .ok moved) :
    moved.length = runLength run := by
  induction run generalizing source address destination moved with
  | nil =>
      cases h
      rfl
  | cons first rest ih =>
      obtain ⟨hfirst, hrest⟩ := hread
      rw [moveRun] at h
      obtain ⟨front, hfront, h⟩ := bind_eq_ok.1 h
      obtain ⟨more, hmore, h⟩ := bind_eq_ok.1 h
      cases h
      have htaken : (source.take first.length).length = first.length :=
        List.length_take_of_le (Decoder.of_first hfirst).2.2
      rw [List.length_append, ih hrest hmore, runLength_cons,
        length_eq_of_moveInstruction (fun _ => near hfirst) htaken hfront]

/-- The moved bytes are those of the copied instructions. -/
theorem spells_moveRun
    (hd : d.Documented)
    (hread : d.Spells source address run)
    (hstart : range.start ≤ address)
    (hend : destination + (range.finish - range.start) ≤ Memory.addressLimit)
    (hwide : ∀ i ∈ run, ∀ target, LeavesTo range i target →
      ¬ i.HasNarrowTarget (source.drop (i.address - address)))
    (h : moveRun range (relocated range destination address) run source = .ok moved) :
    moved.length = runLength run ∧
      d.Spells moved (relocated range destination address) (run.map (copied range destination)) ∧
      ∀ i ∈ run, (∀ target, ¬ LeavesTo range i target) →
        bytesOf moved address i = bytesOf source address i := by
  induction run generalizing source address moved with
  | nil =>
      cases h
      refine ⟨rfl, trivial, ?_⟩
      intro i hi
      cases hi
  | cons first rest ih =>
      obtain ⟨hfirst, hrest⟩ := hread
      have hat := (Decoder.of_first hfirst).1
      have hlater := Decoder.le_address hrest
      rw [moveRun, ← relocated_add hstart] at h
      obtain ⟨front, hfront, h⟩ := bind_eq_ok.1 h
      obtain ⟨more, hmore, h⟩ := bind_eq_ok.1 h
      cases h
      have hwideFirst : ∀ target, LeavesTo range first target → ¬ first.HasNarrowTarget source := by
        have hfirstWide := hwide first List.mem_cons_self
        rwa [hat, Nat.sub_self, List.drop_zero] at hfirstWide
      have hwideRest : ∀ i ∈ rest, ∀ target, LeavesTo range i target →
          ¬ i.HasNarrowTarget
            ((source.drop first.length).drop (i.address - (address + first.length))) := by
        intro i hi target hleaves
        have hoffset : first.length + (i.address - (address + first.length)) =
            i.address - address := by
          have hle := hlater i hi
          omega
        rw [List.drop_drop, hoffset]
        exact hwide i (List.mem_cons_of_mem first hi) target hleaves
      obtain ⟨hsize, hsame, hdecode⟩ :=
        first_moveInstruction hd hfirst hstart hend hwideFirst hfront
      obtain ⟨hsizeRest, hspells, hsameRest⟩ :=
        ih hrest (Nat.le_trans hstart (Nat.le_add_right ..)) hwideRest hmore
      refine ⟨?_, ⟨hdecode more, ?_⟩, ?_⟩
      · rw [List.length_append, hsize, hsizeRest, runLength_cons]
      · have hlength : (copied range destination first).length = front.length := hsize.symm
        rw [hlength, List.drop_left, hsize, ← relocated_add hstart]
        exact hspells
      · intro i hi hstays
        rcases List.mem_cons.1 hi with rfl | hi
        · rw [bytesOf, bytesOf, hat, Nat.sub_self, List.drop_zero, List.drop_zero, ← hsize,
            List.take_left, hsize]
          exact hsame hstays
        · have hle := hlater i hi
          rw [bytesOf_append (hsize ▸ hle), hsize, hsameRest i hi hstays, bytesOf_drop hle]

/-- **Moving the instructions at the start of a function** fails at the first of them that cannot be
moved.  If it succeeds, and no branch with a narrow target leaves the moved range, a decoder that is as
documented reads the copies of all instructions from what is written at the destination. -/
theorem moveInstructions_faithful
    (hd : d.Documented)
    (hread : d.prologue source address need = some prologue)
    (hend : destination + runLength prologue ≤ Memory.addressLimit) :
    (∀ f, moveInstructions source prologue destination = .error f ↔
      FirstObstacle (movedRange prologue) destination prologue f) ∧
    ((∀ i ∈ prologue, ∀ target, LeavesTo (movedRange prologue) i target →
        ¬ i.HasNarrowTarget (source.drop (i.address - address))) →
      ∀ moved, moveInstructions source prologue destination = .ok moved →
        moved.length = runLength prologue ∧
        d.prologue moved destination moved.length =
          some (prologue.map (copied (movedRange prologue) destination)) ∧
        ∀ i ∈ prologue, (∀ target, ¬ LeavesTo (movedRange prologue) i target) →
          bytesOf moved address i = bytesOf source address i) := by
  have hspells := Decoder.spells_of_prologue hread
  by_cases hempty : prologue = []
  · subst hempty
    constructor
    · intro f
      exact ⟨fun h => (nomatch h), fun h => absurd h not_firstObstacle_nil⟩
    · intro _ moved hmoved
      cases hmoved
      refine ⟨rfl, d.prologue_zero, ?_⟩
      intro i hi
      cases hi
  · have hrange := movedRange_eq hspells hempty
    have hbegin : relocated (movedRange prologue) destination address = destination := by
      simp only [hrange, relocated, Nat.sub_self, Nat.add_zero]
    have hstart : (movedRange prologue).start ≤ address :=
      Nat.le_of_eq (congrArg Memory.Range.start hrange)
    constructor
    · intro f
      have herror := moveRun_eq_error hspells hstart destination f
      rwa [hbegin] at herror
    · intro hwide moved hmoved
      have hfits : destination + ((movedRange prologue).finish - (movedRange prologue).start) ≤
          Memory.addressLimit := by
        simp only [hrange]
        omega
      rw [moveInstructions, ← hbegin] at hmoved
      obtain ⟨hsize, hcopy, hsame⟩ := spells_moveRun hd hspells hstart hfits hwide hmoved
      refine ⟨hsize, ?_, hsame⟩
      rw [hbegin] at hcopy
      have hdecoded := Decoder.prologue_of_spells hcopy
      rwa [runLength_copied, ← hsize] at hdecoded

/-- A no-operation, a short jump back to it and a call that leaves the range. -/
theorem moveInstructions_faithful_call :
    ∃ prologue,
      (Decoder.ofMode .bits64).prologue [0x90, 0x74, 0xFD, 0xE8, 0, 1, 0, 0] 0x4000 8 = some prologue ∧
      0x10000 + runLength prologue ≤ Memory.addressLimit ∧
      moveInstructions [0x90, 0x74, 0xFD, 0xE8, 0, 1, 0, 0] prologue 0x10000 =
        .ok [0x90, 0x74, 0xFD, 0xE8, 0x00, 0x41, 0xFF, 0xFF] ∧
      (Decoder.ofMode .bits64).prologue [0x90, 0x74, 0xFD, 0xE8, 0x00, 0x41, 0xFF, 0xFF] 0x10000 8 =
        some [⟨0x10000, 1, .free, .next, .nop⟩,
          ⟨0x10001, 2, .shortBranch 0x10000, .conditionalJump, .other⟩,
          ⟨0x10003, 5, .nearBranch 0x4108, .call, .other⟩] := by
  have hspells : (Decoder.ofMode .bits64).Spells [0x90, 0x74, 0xFD, 0xE8, 0, 1, 0, 0] 0x4000
      [⟨0x4000, 1, .free, .next, .nop⟩, ⟨0x4001, 2, .shortBranch 0x4000, .conditionalJump, .other⟩,
        ⟨0x4003, 5, .nearBranch 0x4108, .call, .other⟩] :=
    ⟨by decide +kernel, by decide +kernel, by decide +kernel, trivial⟩
  have hread := Decoder.prologue_of_spells hspells
  have hend : 0x10000 + runLength [⟨0x4000, 1, .free, .next, .nop⟩,
      ⟨0x4001, 2, .shortBranch 0x4000, .conditionalJump, .other⟩,
      ⟨0x4003, 5, .nearBranch 0x4108, .call, .other⟩] ≤ Memory.addressLimit := by
    decide
  have hmoved : moveInstructions [0x90, 0x74, 0xFD, 0xE8, 0, 1, 0, 0]
      [⟨0x4000, 1, .free, .next, .nop⟩, ⟨0x4001, 2, .shortBranch 0x4000, .conditionalJump, .other⟩,
        ⟨0x4003, 5, .nearBranch 0x4108, .call, .other⟩] 0x10000 =
      .ok [0x90, 0x74, 0xFD, 0xE8, 0x00, 0x41, 0xFF, 0xFF] := by
    rfl
  have hflow : ∀ i ∈ [(⟨0x4000, 1, .free, .next, .nop⟩ : Instruction),
      ⟨0x4001, 2, .shortBranch 0x4000, .conditionalJump, .other⟩,
      ⟨0x4003, 5, .nearBranch 0x4108, .call, .other⟩], i.flow ≠ .transaction := by
    decide
  obtain ⟨-, hsuccess⟩ := moveInstructions_faithful Decoder.documented_ofMode hread hend
  obtain ⟨-, hcopy, -⟩ := hsuccess (fun i hi _ _ hnarrow => hflow i hi hnarrow.1) _ hmoved
  exact ⟨_, hread, hend, hmoved, hcopy⟩

/-- The displacement of a transaction with the operand-size prefix is two bytes long.  Of such an
instruction the last four bytes are overwritten, its opcode among them. -/
theorem moveInstructions_overwrites_opcode :
    decodePrologue [0x66, 0xC7, 0xF8, 0x00, 0x01] 0x4000 .bits64 5 =
      some [⟨0x4000, 5, .nearBranch 0x4105, .transaction, .other⟩] ∧
    moveInstructions [0x66, 0xC7, 0xF8, 0x00, 0x01]
      [⟨0x4000, 5, .nearBranch 0x4105, .transaction, .other⟩] 0x4080 =
        .ok [0x66, 0x80, 0, 0, 0] ∧
    ∀ copy, decode [0x66, 0x80, 0, 0, 0] 0x4080 .bits64 = some copy →
      copy.length ≠ 5 ∧ copy.relocation = .free := by
  have hspells : (Decoder.ofMode .bits64).Spells [0x66, 0xC7, 0xF8, 0x00, 0x01] 0x4000
      [⟨0x4000, 5, .nearBranch 0x4105, .transaction, .other⟩] :=
    ⟨by decide, trivial⟩
  refine ⟨Decoder.prologue_of_spells hspells, rfl, ?_⟩
  intro copy hcopy
  have hdecoded : decode [0x66, 0x80, 0, 0, 0] 0x4080 .bits64 =
      some ⟨0x4080, 4, .free, .next, .other⟩ := by
    decide
  rw [hdecoded] at hcopy
  cases hcopy
  exact ⟨by decide, rfl⟩

end CallProfiler.Code
