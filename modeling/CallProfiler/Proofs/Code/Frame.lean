import CallProfiler.Proofs.Code.Building
import CallProfiler.Proofs.Instruction.Decoders

/-!
# Patches keep to their footprints

Patches are built, switched and dropped in any order.  As long as no two live patches have a byte of
their footprints in common, each of them finds in its footprint what the memory held at first, and so
what it puts back is that.  The invariant `Sound` says that every live patch is settled with regard to
the first memory and that the code is the first one outside the footprints.

**Main statements.**
* `Sound.step`, `Sound.run`: the invariant holds at every moment.
* `code_differs_in_live_footprints_only`: what of the code differs when.
-/

namespace CallProfiler.Code

open Memory
open Instruction (Decoder)

variable {d : Decoder} {code : Range} {first : Space}

namespace Patch.Settled

variable {p : Patch} {s t : Space}

/-- What happens outside its footprint does not concern a patch. -/
theorem of_frame
    (h : p.Settled first s)
    (same : ∀ x, p.footprint.contains x = true → t.bytes x = s.bytes x) :
    p.Settled first t :=
  ⟨h.remembers, fun x hin hout => (same x hin).trans (h.clean x hin hout)⟩

end Patch.Settled

namespace Patchwork

variable {w : Patchwork} {m : Arena}

/-- What is asked for respects what a patch needs: building, that its allocator avoids the code and
that the surroundings of the function belong to the code. -/
def Turn.Fits (code : Range) : Turn → Prop
  | .build _ allocate target _ => allocate.Avoids code ∧ Surrounds code target
  | _ => True

/-- Only numbers that were given stand for patches. -/
def Numbered (w : Patchwork) : Prop :=
  ∀ k p, w.live k = some p → k < w.next

theorem numbered_start
    (m : Arena) :
    Numbered { arena := m } :=
  fun _ _ hp => by cases hp

theorem Numbered.set
    {number next : Nat} {patch : Option Patch}
    (h : w.Numbered)
    (given : number < next)
    (later : w.next ≤ next) :
    ({ w with arena := m, next }.set number patch).Numbered := by
  intro k p hp
  simp only [Patchwork.set] at hp ⊢
  split at hp
  · next hk =>
      rw [hk]
      exact given
  · exact Nat.lt_of_lt_of_le (h k p hp) later

theorem Numbered.step
    (h : w.Numbered)
    (d : Decoder) (turn : Turn) :
    (w.step d turn).Numbered := by
  have hswitch (change : Space → Patch → Bool × Patch × Space) (number : Nat) :
      (w.switch change number).Numbered := by
    unfold Patchwork.switch
    cases hp : w.live number with
    | none => exact h
    | some p => exact h.set (h number p hp) (Nat.le_refl _)
  cases turn with
  | build hooks allocate target size =>
      simp only [Patchwork.step, Patchwork.build]
      split
      · exact h
      · exact h.set (Nat.lt_succ_self _) (Nat.le_succ _)
  | activate number =>
      exact hswitch _ number
  | revert number =>
      exact hswitch _ number
  | drop number =>
      simp only [Patchwork.step, Patchwork.drop]
      cases hp : w.live number with
      | none => exact h
      | some p => exact h.set (h number p hp) (Nat.le_refl _)

theorem Numbered.run
    (h : w.Numbered)
    (d : Decoder) (turns : List Turn) :
    (w.run d turns).Numbered := by
  induction turns generalizing w with
  | nil =>
      exact h
  | cons turn rest ih =>
      exact ih (h.step d turn)

/-- Every live patch can restore the memory as it was at first, and outside the footprints the code is
as it was. -/
structure Sound (code : Range) (first : Space) (w : Patchwork) : Prop where
  avoids : w.arena.Avoids code
  numbered : w.Numbered
  within : ∀ k p, w.live k = some p → ∀ x, p.footprint.contains x = true → code.contains x = true
  settled : ∀ k p, w.live k = some p → p.Settled first w.arena.space
  untouched : ∀ x, code.contains x = true →
    (∀ k p, w.live k = some p → p.footprint.contains x = false) →
    w.arena.space.bytes x = first.bytes x

theorem Apart.outside
    {j k : Nat} {p q : Patch} {x : Nat}
    (h : w.Apart)
    (hjk : j ≠ k)
    (hp : w.live j = some p)
    (hq : w.live k = some q)
    (hx : p.footprint.contains x = true) :
    q.footprint.contains x = false :=
  Range.apart_iff.2 (h j k p q hjk hp hq) x hx

theorem Numbered.apart_iff
    (h : w.Numbered) :
    w.Apart ↔ w.isApart = true := by
  simp only [isApart, List.all_eq_true, List.mem_range, Bool.or_eq_true, decide_eq_true_eq]
  constructor
  · intro hapart j hj k hk
    by_cases hjk : j = k
    · exact Or.inl hjk
    · right
      cases hp : w.live j with
      | none => rfl
      | some p =>
          cases hq : w.live k with
          | none => rfl
          | some q => simp [hapart j k p q hjk hp hq]
  · intro hcheck j k p q hjk hp hq
    rcases hcheck j (h j p hp) k (h k q hq) with heq | hmeets
    · exact absurd heq hjk
    · rw [hp, hq] at hmeets
      simpa using hmeets

namespace Sound

theorem start
    (avoids : m.Avoids code) :
    Sound code m.space { arena := m } where
  avoids := avoids
  numbered := numbered_start m
  within := fun _ _ hp => by cases hp
  settled := fun _ _ hp => by cases hp
  untouched := fun _ _ _ => rfl

/-- Where nothing of the code changes nothing is lost. -/
theorem of_agrees
    (h : Sound code first w)
    (avoids : m.Avoids code)
    (agrees : w.arena.space.Agrees m.space code) :
    Sound code first { w with arena := m } where
  avoids := avoids
  numbered := h.numbered
  within := h.within
  settled := fun k p hp => (h.settled k p hp).of_frame fun x hx => agrees x (h.within k p hp x hx)
  untouched := fun x hx hout => (agrees x hx).trans (h.untouched x hx hout)

/-- One patch is put in the place of another, or of none, and only bytes of its footprint change. -/
theorem set
    {number next : Nat} {patch : Option Patch}
    (h : Sound code first w)
    (footprint : Range)
    (avoids : m.Avoids code)
    (later : number < next ∧ w.next ≤ next)
    (before : ∀ p, w.live number = some p → p.footprint = footprint)
    (now : ∀ p, patch = some p →
      p.footprint = footprint ∧ p.Settled first m.space ∧
        ∀ x, footprint.contains x = true → code.contains x = true)
    (gone : patch = none → ∀ x, footprint.contains x = true → m.space.bytes x = first.bytes x)
    (others : ∀ k p, k ≠ number → w.live k = some p →
      ∀ x, p.footprint.contains x = true → footprint.contains x = false)
    (same : ∀ x, code.contains x = true → footprint.contains x = false →
      m.space.bytes x = w.arena.space.bytes x) :
    Sound code first ({ w with arena := m, next }.set number patch) where
  avoids := avoids
  numbered := h.numbered.set later.1 later.2
  within := by
    intro k p hp x hx
    simp only [Patchwork.set] at hp
    split at hp
    · obtain ⟨rfl, -, hwithin⟩ := now p hp
      exact hwithin x hx
    · exact h.within k p hp x hx
  settled := by
    intro k p hp
    simp only [Patchwork.set] at hp ⊢
    split at hp
    · exact (now p hp).2.1
    · next hk =>
        refine (h.settled k p hp).of_frame fun x hx => ?_
        exact same x (h.within k p hp x hx) (others k p hk hp x hx)
  untouched := by
    intro x hx hout
    simp only [Patchwork.set] at hout ⊢
    cases hfootprint : footprint.contains x with
    | true =>
        cases patch with
        | none =>
            exact gone rfl x hfootprint
        | some p =>
            have hpx := hout number p (if_pos rfl)
            rw [(now p rfl).1, hfootprint] at hpx
            cases hpx
    | false =>
        rw [same x hx hfootprint]
        refine h.untouched x hx fun k p hp => ?_
        by_cases hk : k = number
        · rw [hk] at hp
          rw [before p hp]
          exact hfootprint
        · exact hout k p (by rw [if_neg hk]; exact hp)

theorem switch
    {change : Space → Patch → Bool × Patch × Space}
    (h : Sound code first w)
    (apart : w.Apart)
    (switches : ∀ p : Patch, p.Settled first w.arena.space →
      p.Switches first w.arena.space (change w.arena.space p))
    (number : Nat) :
    Sound code first (w.switch change number) := by
  unfold Patchwork.switch
  cases hp : w.live number with
  | none =>
      exact h
  | some p =>
      have hswitched := switches p (h.settled number p hp)
      refine h.set p.footprint (h.avoids.store hswitched.regions)
        ⟨h.numbered number p hp, Nat.le_refl _⟩ ?_ ?_ (fun no => by cases no) ?_ ?_
      · intro q hq
        rw [hp] at hq
        cases hq
        rfl
      · intro q hq
        cases hq
        exact ⟨hswitched.footprint, hswitched.settled, h.within number p hp⟩
      · intro k q hk hq x hx
        exact apart.outside hk hq hp hx
      · intro x _ hout
        exact hswitched.same x hout

theorem drop
    (h : Sound code first w)
    (apart : w.Apart)
    (number : Nat) :
    Sound code first (w.drop number) := by
  unfold Patchwork.drop
  cases hp : w.live number with
  | none =>
      exact h
  | some p =>
      have hsettled := h.settled number p hp
      refine h.set p.footprint (hsettled.remove_avoids h.avoids)
        ⟨h.numbered number p hp, Nat.le_refl _⟩ ?_ (fun q no => by cases no) ?_ ?_ ?_
      · intro q hq
        rw [hp] at hq
        cases hq
        rfl
      · intro _ x hx
        exact hsettled.remove hx
      · intro k q hk hq x hx
        exact apart.outside hk hq hp hx
      · intro x _ hout
        exact hsettled.remove_outside hout

/-- What a new patch replaces is what the memory held at first: no live patch has a part in it. -/
theorem build
    {allocate : BlockSource} {target : Nat}
    (h : Sound code first w)
    (hooks : Hooks) (size : Nat)
    (near : d.NearBranchesLong)
    (source : allocate.Avoids code)
    (surrounds : Surrounds code target)
    (apart : (w.build d hooks allocate target size).Apart) :
    Sound code first (w.build d hooks allocate target size) := by
  have hbuilt := Patch.build_built hooks size target near h.avoids source surrounds
  unfold Patchwork.build at apart ⊢
  generalize Patch.build w.arena allocate hooks target size target d = outcome at hbuilt apart ⊢
  obtain ⟨result, m⟩ := outcome
  cases hbuilt with
  | refused havoids hagrees =>
      exact h.of_agrees havoids hagrees
  | @built p m havoids hsettled hwithin hsame =>
      have hothers : ∀ k q, k ≠ w.next → w.live k = some q →
          ∀ x, q.footprint.contains x = true → p.footprint.contains x = false := by
        intro k q hk hq x hx
        refine apart.outside hk ?_ (if_pos rfl) hx
        simp only [Patchwork.set]
        rw [if_neg hk]
        exact hq
      have hfree : ∀ q, w.live w.next ≠ some q := by
        intro q hq
        exact Nat.lt_irrefl _ (h.numbered w.next q hq)
      refine h.set p.footprint havoids ⟨Nat.lt_succ_self _, Nat.le_succ _⟩ ?_ ?_
        (fun no => by cases no) hothers hsame
      · intro q hq
        exact absurd hq (hfree q)
      · intro q hq
        cases hq
        refine ⟨rfl, hsettled.of_same fun x hx => ?_, hwithin⟩
        refine h.untouched x (hwithin x hx) fun k q hq => ?_
        rw [← Bool.not_eq_true]
        intro hqx
        have hk : k ≠ w.next := by
          rintro rfl
          exact hfree q hq
        rw [hothers k q hk hq x hqx] at hx
        cases hx

/-- Every turn keeps the invariant. -/
theorem step
    {turn : Turn}
    (h : Sound code first w)
    (near : d.NearBranchesLong)
    (fits : turn.Fits code)
    (apart : w.Apart)
    (apart' : (w.step d turn).Apart) :
    Sound code first (w.step d turn) := by
  cases turn with
  | build hooks allocate target size => exact h.build hooks size near fits.1 fits.2 apart'
  | activate number => exact h.switch apart (fun _ hp => hp.activate) number
  | revert number => exact h.switch apart (fun _ hp => hp.revert) number
  | drop number => exact h.drop apart number

theorem run
    {turns : List Turn}
    (h : Sound code first w)
    (near : d.NearBranchesLong)
    (fits : ∀ turn ∈ turns, turn.Fits code)
    (apart : ∀ earlier, earlier <+: turns → (w.run d earlier).Apart) :
    Sound code first (w.run d turns) := by
  induction turns generalizing w with
  | nil =>
      exact h
  | cons turn rest ih =>
      have hstep := h.step near (fits turn List.mem_cons_self) (apart [] List.nil_prefix)
        (apart [turn] ((List.prefix_append [turn] rest)))
      refine ih hstep (fun later hlater => fits later (List.mem_cons_of_mem _ hlater)) ?_
      intro earlier hearlier
      exact apart (turn :: earlier) ((List.prefix_cons_inj turn).mpr hearlier)

end Sound

/-- **Patches keep to their footprints**, in any order of building, switching and dropping.  Of the
code only bytes in footprints of live patches differ from the first ones; a refused patch leaves no
trace; from the start of a function on, a patch that is off accounts for no difference; and a patch
that is dropped, on or off, leaves its whole footprint as it was at first.  Of the decoder only the length
of near branches matters. -/
theorem code_differs_in_live_footprints_only
    (near : d.NearBranchesLong)
    (code : Range) (first : Arena) (turns : List Turn)
    (avoids : first.Avoids code)
    (fits : ∀ turn ∈ turns, turn.Fits code)
    (apart : ∀ earlier, earlier <+: turns → (run d { arena := first } earlier).Apart) :
    let now := run d { arena := first } turns
    (∀ x, code.contains x = true → now.arena.space.bytes x ≠ first.space.bytes x →
        ∃ k p, now.live k = some p ∧ p.footprint.contains x = true) ∧
      (∀ hooks allocate target size, (Turn.build hooks allocate target size).Fits code →
        ∀ fault m, Patch.build now.arena allocate hooks target size target d = (.error fault, m) →
          now.step d (.build hooks allocate target size) = { now with arena := m } ∧
            now.arena.space.Agrees m.space code) ∧
      (∀ k p, now.live k = some p → p.active = false → ∀ x, p.target ≤ x →
        (p.footprint.contains x = true → now.arena.space.bytes x = first.space.bytes x) ∧
          (code.contains x = true → now.arena.space.bytes x ≠ first.space.bytes x →
            ∃ j q, j ≠ k ∧ now.live j = some q ∧ q.footprint.contains x = true)) ∧
      ∀ k p, now.live k = some p →
        (now.step d (.drop k)).live k = none ∧
          ∀ x, p.footprint.contains x = true →
            (now.step d (.drop k)).arena.space.bytes x = first.space.bytes x := by
  intro now
  have hnow : Sound code first.space now := (Sound.start avoids).run near fits apart
  have hdiffers : ∀ x, code.contains x = true → now.arena.space.bytes x ≠ first.space.bytes x →
      ∃ k p, now.live k = some p ∧ p.footprint.contains x = true := by
    intro x hx hdiffers
    apply Classical.byContradiction
    intro hnone
    refine hdiffers (hnow.untouched x hx fun k p hp => ?_)
    rw [← Bool.not_eq_true]
    intro hpx
    exact hnone ⟨k, p, hp, hpx⟩
  refine ⟨hdiffers, ?_, ?_, ?_⟩
  · intro hooks allocate target size hfits fault m hrefused
    have hbuilt := Patch.build_built hooks size target near hnow.avoids hfits.1 hfits.2
    rw [hrefused] at hbuilt
    cases hbuilt with
    | refused _ hagrees =>
        refine ⟨?_, hagrees⟩
        simp only [step, build, hrefused]
  · intro k p hp hoff x habove
    have hown : p.footprint.contains x = true →
        now.arena.space.bytes x = first.space.bytes x := by
      intro hpx
      exact (hnow.settled k p hp).clean x hpx (changed_of_inactive hoff habove)
    refine ⟨hown, fun hx hother => ?_⟩
    obtain ⟨j, q, hq, hqx⟩ := hdiffers x hx hother
    refine ⟨j, q, ?_, hq, hqx⟩
    rintro rfl
    rw [hp] at hq
    cases hq
    exact hother (hown hqx)
  · intro k p hp
    have hdrop : now.step d (.drop k) = ({ now with arena := p.remove now.arena } : Patchwork).set k none := by
      simp only [step, drop, hp]
    rw [hdrop]
    exact ⟨if_pos rfl, fun x hx => (hnow.settled k p hp).remove hx⟩

/-- A function with room for a jumper and one whose start has to be moved; both are diverted, and the
first is given its own bytes back. -/
theorem code_differs_in_live_footprints_only_mixed :
    let code : Range := ⟨0x10000, 0x12000⟩
    let moved : List UInt8 := [0x55, 0x48, 0x89, 0xE5, 0xB8, 0x07, 0x00, 0x00, 0x00, 0x5D, 0xC3]
    let bytes : Nat → UInt8 := fun x =>
      if 0x11800 ≤ x then moved.getD (x - 0x11800) 0xCC
      else if x = 0x11000 ∨ x = 0x11001 then 0x90 else 0xCC
    let first : Arena :=
      (Arena.createAllocator { space := { regions := [⟨code, .all⟩], bytes } } code 32 0x10000).2
    let hooks : Hooks := ⟨1, 2, 3⟩
    let allocate : BlockSource := fun m size => m.allocate 0 size
    let turns : List Turn :=
      [.build hooks allocate 0x11000 0, .build hooks allocate 0x11800 11, .activate 0, .activate 1,
        .revert 0]
    let now := run (.ofMode .bits64) { arena := first } turns
    (now.live 0).map (fun p => (p.target, p.footprint, p.active)) =
        some (0x11000, ⟨0x10FF2, 0x11002⟩, false) ∧
      (now.live 1).map (fun p => (p.target, p.footprint, p.active)) =
        some (0x11800, ⟨0x11800, 0x11805⟩, true) ∧
      now.arena.space.bytes 0x11800 = 0xE9 ∧
      now.arena.space.bytes 0x11000 = 0x90 ∧
      (now.step (.ofMode .bits64) (.drop 1)).arena.space.bytes 0x11800 = 0x55 ∧
      ∀ x, code.contains x = true → now.arena.space.bytes x ≠ first.space.bytes x →
        ∃ k p, now.live k = some p ∧ p.footprint.contains x = true := by
  intro code moved bytes first hooks allocate turns now
  have havoids : first.Avoids code := by
    refine ⟨fun x hx => ⟨⟨code, .all⟩, List.mem_singleton_self _, hx⟩, fun r hr => ?_⟩
    cases hr
  have hfits : ∀ turn ∈ turns, turn.Fits code := by
    intro turn hturn
    have hsource : allocate.Avoids code := avoids_allocate code 0
    simp only [turns, List.mem_cons, List.not_mem_nil, or_false] at hturn
    rcases hturn with rfl | rfl | rfl | rfl | rfl
    · exact ⟨hsource, by decide, by decide⟩
    · exact ⟨hsource, by decide, by decide⟩
    · trivial
    · trivial
    · trivial
  have hchecked : ∀ n, n ≤ 5 → (run (.ofMode .bits64) { arena := first } (turns.take n)).isApart = true := by
    decide +kernel
  have hapart : ∀ earlier, earlier <+: turns → (run (.ofMode .bits64) { arena := first } earlier).Apart := by
    intro earlier hearlier
    rw [((numbered_start first).run _ earlier).apart_iff, List.prefix_iff_eq_take.mp hearlier]
    exact hchecked earlier.length hearlier.length_le
  obtain ⟨hdiffers, -, hoff, hdropped⟩ :=
    code_differs_in_live_footprints_only Decoder.nearBranchesLong_ofMode code first turns havoids hfits hapart
  have hnow : run (.ofMode .bits64) { arena := first } turns = now := rfl
  rw [hnow] at hdiffers hoff hdropped
  have hfirst : (now.live 0).map (fun p => (p.target, p.footprint, p.active)) =
      some (0x11000, ⟨0x10FF2, 0x11002⟩, false) := by
    decide +kernel
  have hsecond : (now.live 1).map (fun p => (p.target, p.footprint, p.active)) =
      some (0x11800, ⟨0x11800, 0x11805⟩, true) := by
    decide +kernel
  refine ⟨hfirst, hsecond, by decide +kernel, ?_, ?_, hdiffers⟩
  · obtain ⟨p, hp, hpair⟩ := Option.map_eq_some_iff.mp hfirst
    obtain ⟨htarget, hrest⟩ := Prod.mk.inj hpair
    obtain ⟨hfootprint, hinactive⟩ := Prod.mk.inj hrest
    rw [(hoff 0 p hp hinactive 0x11000 (Nat.le_of_eq htarget)).1 (by rw [hfootprint]; decide)]
    decide +kernel
  · obtain ⟨p, hp, hpair⟩ := Option.map_eq_some_iff.mp hsecond
    obtain ⟨-, hrest⟩ := Prod.mk.inj hpair
    obtain ⟨hfootprint, -⟩ := Prod.mk.inj hrest
    rw [(hdropped 1 p hp).2 0x11800 (by rw [hfootprint]; decide)]
    decide +kernel

end Patchwork

end CallProfiler.Code
