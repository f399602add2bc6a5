import CallProfiler.Proofs.Code.Lengths
import CallProfiler.Proofs.Instruction.Documented

/-!
# What comes of moving the start of a function

Building a patch that moves the start of a function ends in one of six ways; in five of them there is no
patch, and a block that was granted is given back.

**Main statements.**
* `MovingPatch.outcome_build`: the six ways.
* `MovingPatch.build_eq_ok_iff`: what a patch is built from.
-/

namespace CallProfiler.Code

open Memory Instruction

namespace MovingPatch

/-- The instructions of the function that a near jump takes the place of, found in its first bytes. -/
structure Takes (d : Decoder) (s : Space) (target size : Nat) (prologue : List Instruction) : Prop where
  long : nearJumpSize ≤ size
  read : d.prologue (s.read target (min size (nearJumpSize + maxLength))) target nearJumpSize = some prologue
  whole : (prologue.map (·.length)).sum ≤ size

/-- What a patch is built from: the leading instructions of the function, a block that was granted, and the
code that is placed there. -/
structure BuiltFrom (d : Decoder) (m : Arena) (allocate : BlockSource) (hooks : Hooks)
    (target size id : Nat) (prologue : List Instruction) (placed : List UInt8) (granted : Arena)
    (p : MovingPatch) : Prop extends Takes d m.space target size prologue where
  grant : allocate m (Trampoline.size + (prologue.map (·.length)).sum + nearJumpSize) =
    (.ok (p.key, p.block), granted)
  made : MovingPatch.code (m.space.read target (min size (nearJumpSize + maxLength))) prologue hooks
    target id p.block.address = .ok (placed, p.jump)
  new : p = { target, jump := p.jump, saved := [], active := false, key := p.key, block := p.block }

variable {d : Decoder} {m m' : Arena} {allocate : BlockSource} {hooks : Hooks} {target size id : Nat}
  {p : MovingPatch} {prologue : List Instruction} {placed : List UInt8} {granted : Arena}

/-- What building a patch comes to. -/
inductive Outcome (d : Decoder) (m : Arena) (allocate : BlockSource) (hooks : Hooks)
    (target size id : Nat) : Except Fault MovingPatch × Arena → Prop where
  | tooShort
      (hshort : size < nearJumpSize) :
      Outcome d m allocate hooks target size id (.error (.immovable target .functionTooShort), m)
  | undecodable
      (hlong : nearJumpSize ≤ size)
      (hread : d.prologue (m.space.read target (min size (nearJumpSize + maxLength))) target
        nearJumpSize = none) :
      Outcome d m allocate hooks target size id (.error (.undecodable target), m)
  | pastEnd
      {prologue : List Instruction}
      (hlong : nearJumpSize ≤ size)
      (hread : d.prologue (m.space.read target (min size (nearJumpSize + maxLength))) target
        nearJumpSize = some prologue)
      (hpast : size < (prologue.map (·.length)).sum) :
      Outcome d m allocate hooks target size id (.error (.immovable target .pastFunctionEnd), m)
  | unserved
      {prologue : List Instruction} {fault : Memory.Fault} {m' : Arena}
      (htakes : Takes d m.space target size prologue)
      (hdenied : allocate m (Trampoline.size + (prologue.map (·.length)).sum + nearJumpSize) =
        (.error fault, m')) :
      Outcome d m allocate hooks target size id (.error (.memory fault), m')
  | unmade
      {prologue : List Instruction} {key : Nat} {block : Block} {granted : Arena} {fault : Fault}
      (htakes : Takes d m.space target size prologue)
      (hgrant : allocate m (Trampoline.size + (prologue.map (·.length)).sum + nearJumpSize) =
        (.ok (key, block), granted))
      (hfault : MovingPatch.code (m.space.read target (min size (nearJumpSize + maxLength))) prologue
        hooks target id block.address = .error fault) :
      Outcome d m allocate hooks target size id (.error fault, granted.free key)
  | built
      {prologue : List Instruction} {placed : List UInt8} {granted : Arena} {p : MovingPatch}
      (hbuilt : BuiltFrom d m allocate hooks target size id prologue placed granted p) :
      Outcome d m allocate hooks target size id (.ok p, place granted p.block placed)

/-- **What building a patch comes to.** -/
theorem outcome_build
    (d : Decoder) (m : Arena) (allocate : BlockSource) (hooks : Hooks) (target size id : Nat) :
    Outcome d m allocate hooks target size id (MovingPatch.build m allocate hooks target size id d) := by
  rw [MovingPatch.build]
  split
  · next hshort =>
      exact .tooShort hshort
  · next hlong =>
      have hlong := Nat.le_of_not_lt hlong
      simp only
      split
      · next hread =>
          exact .undecodable hlong hread
      · next prologue hread =>
          split
          · next hpast =>
              exact .pastEnd hlong hread hpast
          · next hwhole =>
              have htakes : Takes d m.space target size prologue :=
                ⟨hlong, hread, Nat.le_of_not_lt hwhole⟩
              split
              · next fault m' hdenied =>
                  exact .unserved htakes hdenied
              · next key block granted hgrant =>
                  split
                  · next fault hfault =>
                      exact .unmade htakes hgrant hfault
                  · next placed jump hmade =>
                      exact .built (p := ⟨target, jump, [], false, key, block⟩)
                        ⟨htakes, hgrant, hmade, rfl⟩

/-- **When a patch is built**, and what from. -/
theorem build_eq_ok_iff :
    MovingPatch.build m allocate hooks target size id d = (.ok p, m') ↔
      ∃ prologue placed granted,
        BuiltFrom d m allocate hooks target size id prologue placed granted p ∧
          m' = place granted p.block placed := by
  constructor
  · intro h
    have houtcome := outcome_build d m allocate hooks target size id
    rw [h] at houtcome
    cases houtcome with
    | built hbuilt =>
        exact ⟨_, _, _, hbuilt, rfl⟩
  · rintro ⟨prologue, placed, granted, ⟨⟨hlong, hread, hwhole⟩, hgrant, hmade, hnew⟩, rfl⟩
    simp only [MovingPatch.build, if_neg (Nat.not_lt.2 hlong), hread, if_neg (Nat.not_lt.2 hwhole), hgrant,
      hmade]
    rw [← hnew]

/-- A patch is built if its code can be made. -/
theorem exists_build
    {key : Nat} {block : Block} {jump : List UInt8}
    (htakes : Takes d m.space target size prologue)
    (hgrant : (allocate m (Trampoline.size + (prologue.map (·.length)).sum + nearJumpSize)).1 =
      .ok (key, block))
    (hmade : (MovingPatch.code (m.space.read target (min size (nearJumpSize + maxLength))) prologue hooks
      target id block.address).map (·.2) = .ok jump) :
    ∃ m', MovingPatch.build m allocate hooks target size id d =
      (.ok { target, jump, saved := [], active := false, key, block }, m') := by
  obtain ⟨⟨placed, jump⟩, hcode, rfl⟩ := map_eq_ok.1 hmade
  have hbuilt : BuiltFrom d m allocate hooks target size id prologue placed
      (allocate m (Trampoline.size + (prologue.map (·.length)).sum + nearJumpSize)).2
      { target, jump, saved := [], active := false, key, block } :=
    ⟨htakes, Prod.ext hgrant rfl, hcode, rfl⟩
  exact ⟨_, build_eq_ok_iff.2 ⟨prologue, placed, _, hbuilt, rfl⟩⟩

namespace BuiltFrom

variable (h : BuiltFrom d m allocate hooks target size id prologue placed granted p)

include h

theorem target_eq : p.target = target := by
  rw [h.new]

theorem active_eq : p.active = false := by
  rw [h.new]

/-- The code fits the block that was asked for, and the jump the first bytes of the function. -/
theorem fits
    (near : d.NearBranchesLong) :
    placed.length ≤ Trampoline.size + (prologue.map (·.length)).sum + nearJumpSize ∧
      p.jump.length = nearJumpSize :=
  MovingPatch.length_code (near.of_prologue h.read) h.made

/-- The jump leads to the block. -/
theorem nearJump_eq : nearJump target p.block.address = .ok p.jump := by
  have hmade := h.made
  simp only [MovingPatch.code] at hmade
  obtain ⟨trampoline, -, hmade⟩ := bind_eq_ok.1 hmade
  obtain ⟨moved, -, hmade⟩ := bind_eq_ok.1 hmade
  obtain ⟨back, -, hmade⟩ := bind_eq_ok.1 hmade
  obtain ⟨jump, hjump, hmade⟩ := bind_eq_ok.1 hmade
  obtain ⟨-, hsame⟩ := Prod.mk.inj (Except.ok.inj hmade)
  rw [← hsame]
  exact hjump

end BuiltFrom

end MovingPatch

end CallProfiler.Code
