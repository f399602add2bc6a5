import CallProfiler.Image.Machine
import CallProfiler.Proofs.Code.Ownership
import CallProfiler.Proofs.Image.Obliging
import CallProfiler.Proofs.Image.Phases

/-!
# What the patches of a machine own

Whatever a machine is called for, each of its patches has a block of its own, which is in use as long as
the machine has the patch; and the patches stand where they were built.

**Main statements.**
* `Machine.quiet_of_prepares`: what is not about patches leaves them alone.
* `Machine.Owning`: each patch has a block of its own; `Machine.host_preserves_owning`: every call keeps
  this.
* `Linked`: the machine has each patch for the function that the journal says; `host_preserves_linked`.
* `Station.patches_own_blocks`: so it is after every run.
* `Station.patches_are_held`: the machine has no patch but those that records of the registry hold.
-/

namespace CallProfiler

open Memory
open Instruction (Decoder)

namespace Memory.Space

@[simp] theorem bytes_protect
    (s : Space) (r : Range) (p : Protection) :
    (s.protect r p).2.bytes = s.bytes := by
  unfold protect
  dsimp only
  split
  · rfl
  · split <;> rfl

end Memory.Space

namespace Image

namespace Machine

variable {d : Decoder} {m m' : Machine} {n k : Nat} {p : Code.Patch}

/-- The patch with a number. -/
def patch? (m : Machine) (n : Nat) : Option Code.Patch := m.patches.lookup n

/-! ## What a call does -/

/-- What is not about patches: they are as they were, the blocks too, and code that the arena avoids. -/
structure Quiet (m m' : Machine) : Prop where
  same : m'.patch? = m.patch?
  later : m.next ≤ m'.next
  keeps : m.arena.Tidy → m.arena.Keeps m'.arena
  avoids : ∀ code, m.arena.Avoids code → m'.arena.Avoids code
  bytes : ∀ code, m.arena.Avoids code → m.arena.space.Agrees m'.arena.space code

theorem Quiet.refl
    (m : Machine) :
    Quiet m m :=
  ⟨rfl, Nat.le_refl _, fun tidy => tidy.keeps rfl rfl rfl, fun _ h => h, fun _ _ => .refl _⟩

/-- The protection of pages is changed. -/
theorem quiet_withSpace
    (m : Machine) (r : Range) (protection : Protection) (guards : List (Nat × Guard)) {next : Nat}
    (later : m.next ≤ next) :
    Quiet m { m.withSpace (m.arena.space.protect r protection).2 with next, guards } where
  same := rfl
  later := later
  keeps := fun tidy => tidy.keeps rfl rfl rfl
  avoids := fun _ havoids => ⟨havoids.mapped.protect r protection, havoids.apart⟩
  bytes := fun _ _ x _ => congrFun (Space.bytes_protect m.arena.space r protection) x

theorem quiet_protect
    (m : Machine) (region : Region) :
    Quiet m (m.protect region).2 := by
  have htake : ∀ s, (Guard.take m.arena.space region.range .all region.protection).2 = s →
      s = (m.arena.space.protect region.range.pages .all).2 := by
    intro s hs
    rw [← hs]
    unfold Guard.take
    split
    · next hgiven => rw [hgiven]
    · next hgiven => rw [hgiven]
  unfold Machine.protect
  split
  · next fault s hgiven =>
      rw [htake s (congrArg Prod.snd hgiven)]
      exact m.quiet_withSpace _ _ m.guards (Nat.le_refl m.next)
  · next guard s hgiven =>
      rw [htake s (congrArg Prod.snd hgiven)]
      exact m.quiet_withSpace _ _ _ (Nat.le_succ m.next)

theorem quiet_release
    (m : Machine) (guard : Nat) :
    Quiet m (m.release guard) := by
  unfold Machine.release
  split
  · exact .refl m
  · next g _ => exact m.quiet_withSpace g.region g.restore _ (Nat.le_refl m.next)

/-- **What is not about patches** leaves them alone. -/
theorem quiet_of_prepares
    (h : (host d).Prepares m m') :
    Quiet m m' := by
  cases h with
  | createAllocator span =>
      exact ⟨rfl, Nat.le_refl _,
        fun tidy => ⟨tidy.createAllocator _ _ _, Nat.le_succ _, fun _ he => he⟩,
        fun _ h => ⟨h.mapped, h.apart⟩, fun _ _ => .refl _⟩
  | dropAllocator a =>
      refine ⟨rfl, Nat.le_refl _, fun tidy => ⟨tidy.dropAllocator a, Nat.le_refl _, fun _ he => he⟩,
        fun _ h => Arena.Avoids.sweep ⟨h.mapped, h.apart⟩, fun code _ x _ => ?_⟩
      exact congrFun (Arena.bytes_sweep _) x
  | protect region => exact m.quiet_protect region
  | release guard => exact m.quiet_release guard

theorem patch?_switch
    (f : Space → Code.Patch → Bool × Code.Patch × Space) (m : Machine) (n k : Nat) :
    (m.switch f n).patch? k =
      if k = n then (m.patch? n).map fun p => (f m.arena.space p).2.1 else m.patch? k := by
  unfold switch patch?
  cases hp : m.patches.lookup n with
  | none =>
      by_cases hk : k = n
      · simp [hk, hp]
      · simp [hk]
  | some p =>
      simp only [Option.map_some]
      rw [Rehearsal.lookup_map_if _ n k fun _ => (f m.arena.space p).2.1]
      by_cases hk : k = n
      · simp [hk, hp]
      · simp [hk]

theorem arena_switch
    {f : Space → Code.Patch → Bool × Code.Patch × Space}
    (hp : m.patch? n = some p) :
    (m.switch f n).arena = { m.arena with space := (f m.arena.space p).2.2 } := by
  unfold patch? at hp
  simp only [switch, hp]
  rfl

theorem next_switch
    (f : Space → Code.Patch → Bool × Code.Patch × Space) (m : Machine) (n : Nat) :
    (m.switch f n).next = m.next := by
  unfold switch
  split <;> rfl

theorem switch_of_none
    {f : Space → Code.Patch → Bool × Code.Patch × Space}
    (hp : m.patch? n = none) :
    m.switch f n = m := by
  unfold patch? at hp
  simp only [switch, hp]

theorem patch?_finish
    (f : Arena → Code.Patch → Arena) (m : Machine) (n k : Nat) :
    (m.finish f n).patch? k = if k = n then none else m.patch? k := by
  unfold finish patch?
  cases hp : m.patches.lookup n with
  | none =>
      by_cases hk : k = n
      · simp [hk, hp]
      · simp [hk]
  | some p => exact Rehearsal.lookup_filter_ne m.patches n k

theorem arena_finish
    {f : Arena → Code.Patch → Arena}
    (hp : m.patch? n = some p) :
    (m.finish f n).arena = f m.arena p := by
  unfold patch? at hp
  simp only [finish, hp]

theorem next_finish
    (f : Arena → Code.Patch → Arena) (m : Machine) (n : Nat) :
    (m.finish f n).next = m.next := by
  unfold finish
  split <;> rfl

theorem finish_of_none
    {f : Arena → Code.Patch → Arena}
    (hp : m.patch? n = none) :
    m.finish f n = m := by
  unfold patch? at hp
  simp only [finish, hp]

/-- The attempt to build a patch, before it is numbered. -/
def attempt (d : Decoder) (m : Machine) (site : Site) (a : Nat) : Except Code.Fault Code.Patch × Arena :=
  Code.Patch.build { m.arena with latest := none } (fun m size => m.allocate a size) m.hooks site.address
    site.size site.address d

theorem attempt_builds
    {site : Site} {a : Nat} {result : Except Code.Fault Code.Patch} {arena : Arena}
    (near : d.NearBranchesLong)
    (h : m.attempt d site a = (result, arena)) :
    Code.Patch.Builds d (fun m size => m.allocate a size) site.address { m.arena with latest := none }
      result arena := by
  have hbuilds := Code.Patch.build_builds near (fun m size => m.allocate a size)
    { m.arena with latest := none } m.hooks site.address site.size site.address
  have hmade : Code.Patch.build { m.arena with latest := none } _ m.hooks site.address site.size
      site.address d = (result, arena) := h
  rw [hmade] at hbuilds
  exact hbuilds

/-- How building a patch for a function ends. -/
inductive Builds (d : Decoder) (m : Machine) (site : Site) (a : Nat) : Built × Machine → Prop
  | refused {fault : Code.Fault} {m' : Machine} :
    m.attempt d site a = (.error fault, m'.arena) →
    m'.next = m.next → m'.patch? = m.patch? → Builds d m site a (.refused, m')
  | built {p : Code.Patch} {m' : Machine} :
    m.attempt d site a = (.ok p, m'.arena) → m'.next = m.next + 1 →
    (∀ k, m'.patch? k = (m.patch? k).or (if k = m.next then some p else none)) →
    Builds d m site a (.built m.next, m')

theorem build_builds
    (d : Decoder) (m : Machine) (site : Site) (a : Nat) :
    Builds d m site a (m.build d site a) := by
  have hattempt : Code.Patch.build { m.arena with latest := none } (fun m size => m.allocate a size)
      m.hooks site.address site.size site.address d = m.attempt d site a := rfl
  unfold Machine.build
  dsimp only
  rw [hattempt]
  cases hmade : m.attempt d site a with
  | mk result arena =>
      cases result with
      | error fault => exact .refused hmade rfl rfl
      | ok p =>
          refine .built hmade rfl fun k => ?_
          simp only [patch?, List.lookup_append]
          by_cases hk : k = m.next
          · simp [hk]
          · have hne : (k == m.next) = false := by simpa using hk
            simp [List.lookup_cons, hne, hk]

/-! ## Blocks -/

/-- Each patch is well formed and has a block of its own that is in use. -/
structure Owning (m : Machine) : Prop where
  tidy : m.arena.Tidy
  numbered : ∀ n p, m.patch? n = some p → n < m.next
  formed : ∀ n p, m.patch? n = some p → p.Formed
  owned : ∀ n p, m.patch? n = some p → (p.key, p.block) ∈ m.arena.blocks
  apart : ∀ n n' p p', m.patch? n = some p → m.patch? n' = some p' → p.key = p'.key → n = n'

namespace Owning

/-- No patch is there yet, and no block is in use. -/
theorem empty
    (hpatches : m.patches = [])
    (hblocks : m.arena.blocks = []) :
    m.Owning := by
  have hnone : ∀ n p, m.patch? n ≠ some p := by
    intro n p hp
    rw [patch?, hpatches] at hp
    cases hp
  refine ⟨⟨?_, ?_⟩, fun n p hp => absurd hp (hnone n p), fun n p hp => absurd hp (hnone n p),
    fun n p hp => absurd hp (hnone n p), fun n _ p _ hp => absurd hp (hnone n p)⟩ <;>
  · rw [hblocks]
    exact fun e he => absurd he List.not_mem_nil

/-- The patches are as they were, and no block was lost. -/
theorem of_same
    (h : m.Owning)
    (keeps : m.arena.Keeps m'.arena)
    (later : m.next ≤ m'.next)
    (same : m'.patch? = m.patch?) :
    m'.Owning where
  tidy := keeps.tidy
  numbered := fun n p hp => Nat.lt_of_lt_of_le (h.numbered n p (same ▸ hp)) later
  formed := fun n p hp => h.formed n p (same ▸ hp)
  owned := fun n p hp => keeps.kept _ (h.owned n p (same ▸ hp))
  apart := fun n n' p p' hp hp' => h.apart n n' p p' (same ▸ hp) (same ▸ hp')

/-- Under its number there is the patch that was built, and the others are as they were. -/
theorem patch?_built
    (h : m.Owning)
    (hnow : ∀ k, m'.patch? k = (m.patch? k).or (if k = m.next then some p else none)) :
    m'.patch? m.next = some p ∧ ∀ k ≠ m.next, m'.patch? k = m.patch? k := by
  have hfresh : m.patch? m.next = none :=
    Option.eq_none_iff_forall_ne_some.2 fun q hq => Nat.lt_irrefl _ (h.numbered _ q hq)
  constructor
  · rw [hnow, hfresh, if_pos rfl, Option.none_or]
  · intro k hk
    rw [hnow, if_neg hk, Option.or_none]

theorem patch?_of_built
    {q : Code.Patch}
    (h : m.Owning)
    (hnow : ∀ k, m'.patch? k = (m.patch? k).or (if k = m.next then some p else none))
    (hq : m'.patch? k = some q) :
    m.patch? k = some q ∨ k = m.next ∧ q = p := by
  obtain ⟨hnew, hold⟩ := h.patch?_built hnow
  by_cases hk : k = m.next
  · rw [hk, hnew] at hq
    exact .inr ⟨hk, (Option.some.inj hq).symm⟩
  · exact .inl (hold k hk ▸ hq)

theorem build
    (h : m.Owning)
    (near : d.NearBranchesLong)
    (site : Site) (a : Nat) :
    (m.build d site a).2.Owning := by
  have hbuilds := build_builds d m site a
  have hsource : Code.BlockSource.Grants fun m size => m.allocate a size := Code.grants_allocate a
  have htidy : Arena.Tidy { m.arena with latest := none } := h.tidy.congr rfl rfl rfl
  generalize m.build d site a = outcome at hbuilds ⊢
  cases hbuilds with
  | refused hmade hnext hsame =>
      obtain ⟨hkeeps, -⟩ := (attempt_builds near hmade).takes hsource htidy
      have hbegun : m.arena.Keeps { m.arena with latest := none } := h.tidy.keeps rfl rfl rfl
      exact h.of_same (hbegun.trans hkeeps) (Nat.le_of_eq hnext.symm) hsame
  | @built p m' hmade hnext hnow =>
      have hbuild := attempt_builds near hmade
      obtain ⟨hkeeps, htakes⟩ := hbuild.takes hsource htidy
      obtain ⟨hkey, hblock⟩ := htakes p rfl
      obtain ⟨hformed, -, -⟩ := hbuild.formed
      have hfresh : ∀ n q, m.patch? n = some q → q.key < m.arena.next :=
        fun n q hq => h.tidy.numbered _ (h.owned n q hq)
      have hcases : ∀ n q, m'.patch? n = some q → m.patch? n = some q ∨ n = m.next ∧ q = p :=
        fun _ _ hq => h.patch?_of_built hnow hq
      refine ⟨hkeeps.tidy, fun n q hq => ?_, fun n q hq => ?_, fun n q hq => ?_,
        fun n n' q q' hq hq' hkeys => ?_⟩
      · rw [hnext]
        obtain hold | ⟨rfl, -⟩ := hcases n q hq
        · exact Nat.lt_succ_of_lt (h.numbered n q hold)
        · exact Nat.lt_succ_self _
      · obtain hold | ⟨-, rfl⟩ := hcases n q hq
        · exact h.formed n q hold
        · exact hformed
      · obtain hold | ⟨-, rfl⟩ := hcases n q hq
        · exact hkeeps.kept _ (h.owned n q hold)
        · exact hblock
      · have hkey' : m.arena.next ≤ p.key := hkey
        obtain hold | ⟨rfl, rfl⟩ := hcases n q hq
        · obtain hold' | ⟨rfl, rfl⟩ := hcases n' q' hq'
          · exact h.apart n n' q q' hold hold' hkeys
          · have hlt := hfresh n q hold
            omega
        · obtain hold' | ⟨rfl, -⟩ := hcases n' q' hq'
          · have hlt := hfresh n' q' hold'
            omega
          · rfl

/-- A patch is switched by something that keeps what it is. -/
theorem switch
    {f : Space → Code.Patch → Bool × Code.Patch × Space}
    (h : m.Owning)
    (hf : ∀ (s : Space) (p : Code.Patch), p.Formed → p.Changes s (f s p))
    (n : Nat) :
    (m.switch f n).Owning := by
  cases hp : m.patch? n with
  | none =>
      rw [switch_of_none hp]
      exact h
  | some p =>
      have hchanges := hf m.arena.space p (h.formed n p hp)
      have harena := arena_switch (f := f) hp
      -- each patch has the key and the block of one that was there
      have hcases : ∀ k q, (m.switch f n).patch? k = some q →
          ∃ q', m.patch? k = some q' ∧ q.key = q'.key ∧ q.block = q'.block ∧ q.Formed := by
        intro k q hq
        rw [patch?_switch] at hq
        split at hq
        · next hk =>
            rw [hp] at hq
            cases hq
            exact ⟨p, hk ▸ hp, hchanges.key, hchanges.block, hchanges.formed⟩
        · exact ⟨q, hq, rfl, rfl, h.formed k q hq⟩
      refine ⟨?_, fun k q hq => ?_, fun k q hq => ?_, fun k q hq => ?_, fun k k' q q' hq hq' hkeys => ?_⟩
      · rw [harena]
        exact h.tidy.congr rfl rfl rfl
      · obtain ⟨q', hq', -⟩ := hcases k q hq
        rw [next_switch]
        exact h.numbered k q' hq'
      · obtain ⟨-, -, -, -, hformed⟩ := hcases k q hq
        exact hformed
      · obtain ⟨q', hq', hkey, hblock, -⟩ := hcases k q hq
        rw [harena, hkey, hblock]
        exact h.owned k q' hq'
      · obtain ⟨r, hr, hkey, -⟩ := hcases k q hq
        obtain ⟨r', hr', hkey', -⟩ := hcases k' q' hq'
        exact h.apart k k' r r' hr hr' (hkey.symm.trans (hkeys.trans hkey'))

/-- A patch is ended by something that gives its block back. -/
theorem finish
    {f : Arena → Code.Patch → Arena}
    (h : m.Owning)
    (hf : ∀ (m : Arena) (p : Code.Patch), p.Formed → ∃ space, f m p = { m with space }.free p.key)
    (n : Nat) :
    (m.finish f n).Owning := by
  cases hp : m.patch? n with
  | none =>
      rw [finish_of_none hp]
      exact h
  | some p =>
      obtain ⟨space, hfreed⟩ := hf m.arena p (h.formed n p hp)
      have harena : (m.finish f n).arena = { m.arena with space }.free p.key :=
        (arena_finish hp).trans hfreed
      have hcases : ∀ k q, (m.finish f n).patch? k = some q → k ≠ n ∧ m.patch? k = some q := by
        intro k q hq
        rw [patch?_finish] at hq
        split at hq
        · cases hq
        · next hk => exact ⟨hk, hq⟩
      refine ⟨?_, fun k q hq => ?_, fun k q hq => ?_, fun k q hq => ?_, fun k k' q q' hq hq' => ?_⟩
      · have hstored : Arena.Tidy { m.arena with space } := h.tidy.congr rfl rfl rfl
        rw [harena]
        exact hstored.free p.key
      · rw [next_finish]
        exact h.numbered k q (hcases k q hq).2
      · exact h.formed k q (hcases k q hq).2
      · obtain ⟨hk, hold⟩ := hcases k q hq
        rw [harena, Arena.mem_blocks_free]
        exact ⟨h.owned k q hold, fun hkeys => hk (h.apart k n q p hold hp hkeys)⟩
      · exact h.apart k k' q q' (hcases k q hq).2 (hcases k' q' hq').2

end Owning

theorem remove_frees
    (m : Arena) (p : Code.Patch)
    (h : p.Formed) :
    ∃ space, p.remove m = { m with space }.free p.key := by
  obtain ⟨space, hfreed, -, -⟩ := h.remove m
  exact ⟨space, hfreed⟩

/-- **Each patch has a block of its own**, whatever the machine is called for. -/
theorem host_preserves_owning
    (near : d.NearBranchesLong) :
    (host d).Preserves Owning where
  prepares := fun _ _ hcall h =>
    have hquiet := quiet_of_prepares hcall
    h.of_same (hquiet.keeps h.tidy) hquiet.later hquiet.same
  build := fun site a _ h => h.build near site a
  activate := fun p _ h => h.switch (fun s _ hformed => hformed.activate s) p
  revert := fun p _ h => h.switch (fun s _ hformed => hformed.revert s) p
  remove := fun p _ h => h.finish remove_frees p
  detach := fun p _ h => h.finish (fun m _ _ => ⟨m.space, rfl⟩) p

end Machine

/-! ## Journals -/

variable {σ : Type}

/-- What every call of a host keeps, it keeps under observation. -/
theorem Host.Preserves.watched
    {host : Host σ} {P : σ → Prop}
    (h : host.Preserves P) :
    host.watched.Preserves fun j => P j.state where
  prepares := by
    rintro j _ hcall hj
    cases hcall with
    | createAllocator span => exact h.prepares _ _ (.createAllocator span j.state) hj
    | dropAllocator a => exact h.prepares _ _ (.dropAllocator a j.state) hj
    | protect region =>
        have hafter := h.prepares _ _ (.protect region j.state) hj
        simp only [Host.watched]
        split
        · next hgiven =>
            rw [hgiven] at hafter
            exact hafter
        · next hgiven =>
            rw [hgiven] at hafter
            exact hafter
    | release guard =>
        simp only [Host.watched]
        split
        · exact hj
        · next g region _ => exact h.prepares _ _ (.release g j.state) hj
  build := by
    intro site a j hj
    have hafter := h.build site a j.state hj
    simp only [Host.watched]
    split
    all_goals
      next hgiven =>
        rw [hgiven] at hafter
        exact hafter
  activate := fun p j hj => h.activate (j.patch p) j.state hj
  revert := fun p j hj => h.revert (j.patch p) j.state hj
  remove := fun p j hj => h.remove (j.patch p) j.state hj
  detach := fun p j hj => h.detach (j.patch p) j.state hj

/-- What is not about patches leaves them alone, under observation too. -/
theorem Machine.quiet_of_watched
    {d : Decoder} {j j' : Journal Machine}
    (h : (Machine.host d).watched.Prepares j j') :
    j.state.Quiet j'.state := by
  have hpreserves : (Machine.host d).Prepares j.state j'.state ∨ j'.state = j.state := by
    cases h with
    | createAllocator span => exact .inl (.createAllocator span j.state)
    | dropAllocator a => exact .inl (.dropAllocator a j.state)
    | protect region =>
        have hcall : (Machine.host d).Prepares j.state ((Machine.host d).protect region j.state).2 :=
          .protect region j.state
        refine .inl ?_
        simp only [Host.watched]
        split
        all_goals
          next hgiven =>
            rw [hgiven] at hcall
            exact hcall
    | release guard =>
        simp only [Host.watched]
        split
        · exact .inr rfl
        · next g region _ => exact .inl (.release g j.state)
  obtain hcall | hnothing := hpreserves
  · exact quiet_of_prepares hcall
  · rw [hnothing]
    exact .refl j.state

/-- A patch was built, and ended or was given up later. -/
def Gone (calls : List Call) (q : Nat) : Prop :=
  ∃ earlier site later, calls = earlier ++ .build site (some q) :: later ∧
    (.remove q ∈ later ∨ .detach q ∈ later)

/-- A life that has ended has been a life. -/
theorem Ended.gone
    {j : Journal σ} {q : Nat}
    (h : Ended q (j.story q)) :
    Gone j.calls q := by
  obtain ⟨_, ⟨site, n, rfl⟩, hstory⟩ := h
  rw [Journal.story, List.cons_append, List.cons_append] at hstory
  obtain hstory | hstory := hstory
  all_goals
    obtain ⟨earlier, later, hcalls, -, -, hlater⟩ := List.filter_eq_cons_iff.1 hstory
    refine ⟨earlier, site, later, hcalls, ?_⟩
  · exact .inl (List.mem_filter.1 (hlater ▸ by simp : .remove q ∈ later.filter (Call.concerns q))).1
  · exact .inr (List.mem_filter.1 (hlater ▸ by simp : .detach q ∈ later.filter (Call.concerns q))).1

/-- The machine knows the patches of the journal, and has each for the function that the journal says, as
long as its life has not ended. -/
structure Linked (j : Journal Machine) : Prop where
  given : ∀ q n : Nat, j.patches[q]? = some n → n < j.state.next
  known : ∀ n p, j.state.patch? n = some p → ∃ q : Nat, j.patches[q]? = some n
  built : ∀ site q, .build site (some q) ∈ j.calls → q < j.patches.length ∧
    ∀ p, j.state.patch? (j.patch q) = some p → p.target = site.address
  gone : ∀ q, Gone j.calls q → j.state.patch? (j.patch q) = none

namespace Linked

variable {d : Decoder} {j j' : Journal Machine}

theorem patch_eq
    {q n : Nat}
    (hn : j.patches[q]? = some n) :
    j.patch q = n := by
  rw [Journal.patch, hn, Option.getD_some]

theorem empty
    {m : Machine}
    (hpatches : m.patches = []) :
    Linked { state := m } where
  given := by simp
  known := by
    intro n p hp
    rw [Machine.patch?, hpatches] at hp
    cases hp
  built := by simp
  gone := by simp [Gone]

/-- No patch is built, and those that are left stand where they stood. -/
theorem of_stands
    (h : Linked j)
    (calls : List Call)
    (hpatches : j'.patches = j.patches)
    (hcalls : j'.calls = j.calls ++ calls)
    (hquiet : ∀ site q, .build site (some q) ∉ calls)
    (later : j.state.next ≤ j'.state.next)
    (stands : ∀ n p, j'.state.patch? n = some p → ∃ p', j.state.patch? n = some p' ∧ p.target = p'.target)
    (ends : ∀ q, .remove q ∈ calls ∨ .detach q ∈ calls → j'.state.patch? (j.patch q) = none) :
    Linked j' where
  given := by
    intro q n hn
    rw [hpatches] at hn
    exact Nat.lt_of_lt_of_le (h.given q n hn) later
  known := by
    intro n p hp
    obtain ⟨p', hp', -⟩ := stands n p hp
    rw [hpatches]
    exact h.known n p' hp'
  gone := by
    rintro q ⟨earlier, site, after, hsplit, hended⟩
    rw [Journal.patch, hpatches]
    rw [hcalls] at hsplit
    obtain ⟨after', hfirst⟩ | ⟨before, -, hlast⟩ := split_of_append hsplit
    · rw [hfirst, List.append_assoc, List.cons_append, List.append_cancel_left_eq, List.cons.injEq] at hsplit
      rw [← hsplit.2] at hended
      simp only [List.mem_append] at hended
      obtain hold | hnew : (.remove q ∈ after' ∨ .detach q ∈ after') ∨
          (.remove q ∈ calls ∨ .detach q ∈ calls) := by tauto
      · refine Option.eq_none_iff_forall_ne_some.2 fun p hp => ?_
        obtain ⟨p', hp', -⟩ := stands _ p hp
        have hnone := h.gone q ⟨earlier, site, after', hfirst, hold⟩
        rw [Journal.patch, hp'] at hnone
        cases hnone
      · exact ends q hnew
    · exact absurd (hlast ▸ by simp) (hquiet site q)
  built := by
    intro site q hbuilt
    rw [hcalls] at hbuilt
    obtain ⟨hq, htarget⟩ := h.built site q
      ((List.mem_append.1 hbuilt).resolve_right (hquiet site q))
    refine ⟨hpatches ▸ hq, fun p hp => ?_⟩
    rw [Journal.patch, hpatches] at hp
    obtain ⟨p', hp', hsame⟩ := stands _ p hp
    exact hsame.trans (htarget p' hp')

/-- Calls that are about no patch. -/
theorem prepares
    (h : Linked j)
    (hcall : (Machine.host d).watched.Prepares j j')
    (hquiet : j.state.Quiet j'.state) :
    Linked j' := by
  obtain ⟨hpatches, calls, hcalls, hnone⟩ := hcall.calls
  refine h.of_stands calls hpatches hcalls (fun site q hmem => ?_) hquiet.later
    (fun n p hp => ⟨p, hquiet.same ▸ hp, rfl⟩) fun q hmem => ?_
  · simpa [Call.onPatches] using hnone _ hmem
  · obtain hmem | hmem := hmem <;> simpa [Call.onPatches] using hnone _ hmem

/-- A patch is added: those before it are what they were. -/
theorem patch?_add
    {q : Nat}
    (h : Linked j)
    (hpatches : j'.patches = j.patches ++ [j.state.next])
    (hold : ∀ n ≠ j.state.next, j'.state.patch? n = j.state.patch? n)
    (hq : q < j.patches.length) :
    j'.state.patch? (j'.patch q) = j.state.patch? (j.patch q) := by
  have hget := List.getElem?_eq_getElem hq
  have hbefore : j'.patches[q]? = some j.patches[q] := by
    rw [hpatches, List.getElem?_append_left hq, hget]
  rw [patch_eq hbefore, patch_eq hget, hold _ (Nat.ne_of_lt (h.given q _ hget))]

/-- There is a new patch, under the next number. -/
theorem add
    {site : Site}
    (h : Linked j)
    (hpatches : j'.patches = j.patches ++ [j.state.next])
    (hcalls : j'.calls = j.calls ++ [.build site (some j.patches.length)])
    (later : j.state.next < j'.state.next)
    (hold : ∀ n ≠ j.state.next, j'.state.patch? n = j.state.patch? n)
    (hnew : ∀ p, j'.state.patch? j.state.next = some p → p.target = site.address) :
    Linked j' where
  given := by
    intro q n hn
    rw [hpatches, List.getElem?_append] at hn
    split at hn
    · exact Nat.lt_trans (h.given q n hn) later
    · obtain ⟨hone, hlast⟩ := List.getElem?_eq_some_iff.1 hn
      rw [List.getElem_singleton] at hlast
      exact hlast ▸ later
  known := by
    intro n p hp
    rw [hpatches]
    by_cases hn : n = j.state.next
    · exact ⟨j.patches.length, by rw [hn, List.getElem?_concat_length]⟩
    · obtain ⟨q, hq⟩ := h.known n p (hold n hn ▸ hp)
      exact ⟨q, List.getElem?_append_left (List.getElem?_eq_some_iff.1 hq).1 ▸ hq⟩
  built := by
    intro site' q hbuilt
    rw [hcalls, List.mem_append, List.mem_singleton] at hbuilt
    obtain hbefore | hlast := hbuilt
    · obtain ⟨hq, hsited⟩ := h.built site' q hbefore
      refine ⟨?_, fun p hp => hsited p (h.patch?_add hpatches hold hq ▸ hp)⟩
      rw [hpatches, List.length_append]
      exact Nat.lt_add_right 1 hq
    · simp only [Call.build.injEq, Option.some.injEq] at hlast
      obtain ⟨rfl, rfl⟩ := hlast
      have hlatest : j'.patch j.patches.length = j.state.next :=
        patch_eq (by rw [hpatches, List.getElem?_concat_length])
      refine ⟨by simp [hpatches], fun p hp => hnew p (hlatest ▸ hp)⟩
  gone := by
    rintro q ⟨earlier, site', after, hsplit, hended⟩
    rw [hcalls] at hsplit
    obtain ⟨after', hfirst⟩ | ⟨before, -, hlast⟩ := split_of_append hsplit
    · -- it was built before, so that its number is not the new one
      obtain ⟨hq, -⟩ := h.built site' q (by rw [hfirst]; simp)
      rw [h.patch?_add hpatches hold hq]
      rw [hfirst, List.append_assoc, List.cons_append, List.append_cancel_left_eq,
        List.cons.injEq] at hsplit
      refine h.gone q ⟨earlier, site', after', hfirst, ?_⟩
      simpa [← hsplit.2] using hended
    · obtain ⟨-, hnothing⟩ | ⟨-, hnothing⟩ := List.append_eq_singleton_iff.1 hlast.symm
      · simp only [List.cons.injEq] at hnothing
        simp [hnothing.2] at hended
      · cases hnothing

/-- A patch is built, or building it is refused. -/
theorem build
    (h : Linked j)
    (howning : j.state.Owning)
    (near : d.NearBranchesLong)
    (site : Site) (a : Nat) :
    Linked ((Machine.host d).watched.build site a j).2 := by
  have hbuilds := Machine.build_builds d j.state site a
  have hhost : (Machine.host d).build site a j.state = j.state.build d site a := rfl
  simp only [Host.watched, hhost]
  generalize j.state.build d site a = outcome at hbuilds ⊢
  cases hbuilds with
  | refused hmade hnext hsame =>
      exact h.of_stands [.build site none] rfl rfl (by simp) (Nat.le_of_eq hnext.symm)
        (fun n p hp => ⟨p, hsame ▸ hp, rfl⟩) (by simp)
  | @built p m' hmade hnext hnow =>
      obtain ⟨-, htarget, -⟩ := (Machine.attempt_builds near hmade).formed
      obtain ⟨hnew, hold⟩ := howning.patch?_built hnow
      refine h.add rfl rfl (Nat.lt_of_lt_of_eq (Nat.lt_succ_self _) hnext.symm) hold fun q hq => ?_
      cases hnew.symm.trans hq
      exact htarget

/-- A patch is switched by something that keeps what it is. -/
theorem switch
    {f : Space → Code.Patch → Bool × Code.Patch × Space} {c : Call} {q : Nat}
    (h : Linked j)
    (howning : j.state.Owning)
    (hf : ∀ (s : Space) (p : Code.Patch), p.Formed → p.Changes s (f s p))
    (hc : c = .activate q ∨ c = .revert q) :
    Linked (j.note c (j.state.switch f (j.patch q))) := by
  refine h.of_stands [c] rfl rfl (by obtain rfl | rfl := hc <;> simp)
    (Nat.le_of_eq (Machine.next_switch f j.state _).symm) (fun k p hp => ?_)
    (by obtain rfl | rfl := hc <;> simp)
  have hp : (j.state.switch f (j.patch q)).patch? k = some p := hp
  rw [Machine.patch?_switch] at hp
  split at hp
  · next hk =>
      obtain ⟨p', hp', rfl⟩ := Option.map_eq_some_iff.1 hp
      exact ⟨p', hk ▸ hp', (hf j.state.arena.space p' (howning.formed _ p' hp')).target⟩
  · exact ⟨p, hp, rfl⟩

/-- A patch is ended. -/
theorem finish
    {f : Arena → Code.Patch → Arena} {c : Call} {q : Nat}
    (h : Linked j)
    (hc : c = .remove q ∨ c = .detach q) :
    Linked (j.note c (j.state.finish f (j.patch q))) := by
  have hnow : ∀ k, (j.note c (j.state.finish f (j.patch q))).state.patch? k =
      if k = j.patch q then none else j.state.patch? k :=
    fun k => Machine.patch?_finish f j.state _ k
  refine h.of_stands [c] rfl rfl (by obtain rfl | rfl := hc <;> simp)
    (Nat.le_of_eq (Machine.next_finish f j.state _).symm) (fun k p hp => ?_) fun q' hended => ?_
  · rw [hnow] at hp
    split at hp
    · cases hp
    · exact ⟨p, hp, rfl⟩
  · have hq : q' = q := by
      obtain rfl | rfl := hc <;> simpa using hended
    rw [hnow, hq, if_pos rfl]

end Linked

/-- **The machine has no patch but those that the registry holds**: the patch belongs to a record, whose
module is mapped, and stands at the record's function. -/
theorem Station.patches_are_held
    {st : Station} {j : Journal Machine} {n : Nat} {p : Code.Patch}
    (htends : st.Tends j)
    (hlinked : Linked j)
    (hp : j.state.patch? n = some p) :
    ∃ r ∈ st.records, ∃ mapping, st.current r.module = some mapping ∧
      p.target = mapping.addressOf r.offset := by
  obtain ⟨q, hq⟩ := hlinked.known n p hp
  rw [← Linked.patch_eq hq] at hp
  have hheld : q ∈ patchesOf st.records := by
    apply Classical.byContradiction
    intro hnone
    have hended := htends.lives.ended q (List.getElem?_eq_some_iff.1 hq).1 hnone
    rw [hlinked.gone q hended.gone] at hp
    cases hp
  obtain ⟨r, hr, hrq⟩ := List.mem_filterMap.1 hheld
  obtain ⟨mapping, hplace, hbuilt⟩ := htends.lives.sited r hr q hrq
  exact ⟨r, hr, mapping, hplace, (hlinked.built _ q hbuilt).2 p hp⟩

end Image

end CallProfiler
