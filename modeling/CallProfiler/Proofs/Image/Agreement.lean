import CallProfiler.Proofs.Image.Outcomes

/-!
# Answers and states agree after any history

The events of the tracker keep what `Tended` says, whether or not the host lets the registry bring its
patches into memory.  So the agreement of answers and states, which holds for one batch of requests,
holds for every batch after every history.

**Main statements.**
* `restoreRecords_reshapes`, `detachRecords_reshapes`: the walks over the records.
* `Tended.followAll`, `Tends.perform`: the registry's tables are kept in order.
* `Fleet.outcomes_tell_states`: every batch after every history.
-/

namespace CallProfiler.Image

variable {σ : Type} {host : Host σ} {fit : σ → Prop} {patches : σ → Nat → Option LivePatch}

/-! ## Walks over the records -/

/-- What exists of records has changed, and no patch is lost or shared; `others` are the patches of
records that the walk does not reach. -/
structure Reshaped
    (fit : σ → Prop) (patches : σ → Nat → Option LivePatch)
    (others : List Nat) (records records' : List Record) (s' : σ) : Prop where
  fit : fit s'
  requests : records'.map Record.request = records.map Record.request
  owned : Owns (patches s') (patchesOf records' ++ others)

namespace Reshaped

variable {others : List Nat} {r r' : Record} {rest rest' : List Record} {s s' s'' : σ}

theorem refl
    {records : List Record}
    (hs : fit s)
    (hown : Owns (patches s) (patchesOf records ++ others)) :
    Reshaped fit patches others records records s :=
  ⟨hs, rfl, hown⟩

/-- What the other records own while one record trades. -/
theorem owned_after
    (hown : Owns (patches s) (patchesOf (r :: rest) ++ others))
    (htrades : Trades (patches s) (patches s') r.patch? r'.patch?) :
    Owns (patches s') (patchesOf rest ++ (r'.patch?.toList ++ others)) := by
  rw [patchesOf_cons, List.append_assoc] at hown
  exact (htrades _ hown).1.perm (List.perm_append_comm_assoc _ _ _)

theorem cons
    (hrequest : r'.request = r.request)
    (hrest : Reshaped fit patches (r'.patch?.toList ++ others) rest rest' s') :
    Reshaped fit patches others (r :: rest) (r' :: rest') s' where
  fit := hrest.fit
  requests := by
    rw [List.map_cons, List.map_cons, hrequest, hrest.requests]
  owned := by
    rw [patchesOf_cons, List.append_assoc]
    exact hrest.owned.perm (List.perm_append_comm_assoc _ _ _)

end Reshaped

/-- Bringing the wanted patches of a module into memory, as far as the host lets that go. -/
theorem restoreRecords_reshapes
    (hhost : host.Fallible fit patches)
    (module : Nat) (mapping : Mapping) (allocator : Option Nat) (records : List Record)
    {others : List Nat} {s : σ}
    (hs : fit s)
    (hown : Owns (patches s) (patchesOf records ++ others)) :
    ∃ finished records' s',
      Registry.restoreRecords host module mapping allocator records s = (finished, records', s') ∧
      Reshaped fit patches others records records' s' := by
  induction records generalizing others s with
  | nil =>
      exact ⟨true, [], s, rfl, Reshaped.refl hs hown⟩
  | cons r rest ih =>
      by_cases hwanted : r.module = module ∧ r.isWanted
      · have hdesired : r.desired = .active := by
          have hboth := hwanted.2
          simp only [Record.isWanted, Bool.and_eq_true, decide_eq_true_eq] at hboth
          exact hboth.1
        have hmine : Owns (patches s) (r.patch?.toList ++ (patchesOf rest ++ others)) := by
          rw [patchesOf_cons, List.append_assoc] at hown
          exact hown
        obtain ⟨outcome, r', s1, hinstantiate, hs1, hrequest, htrades, _⟩ :=
          r.instantiate_settles hhost mapping allocator hs hdesired hmine
        have hown1 := Reshaped.owned_after hown htrades
        cases outcome with
        | none =>
            refine ⟨false, r' :: rest, s1, ?_, Reshaped.cons hrequest (Reshaped.refl hs1 hown1)⟩
            simp only [Registry.restoreRecords, if_pos hwanted, hinstantiate]
        | some outcome =>
            obtain ⟨finished, rest', s', hrest, hreshaped⟩ := ih hs1 hown1
            refine ⟨finished, r' :: rest', s', ?_, Reshaped.cons hrequest hreshaped⟩
            simp only [Registry.restoreRecords, if_pos hwanted, hinstantiate, hrest]
      · have hown1 := Reshaped.owned_after hown (Trades.keep rfl r.patch?)
        obtain ⟨finished, rest', s', hrest, hreshaped⟩ := ih hs hown1
        refine ⟨finished, r :: rest', s', ?_, Reshaped.cons rfl hreshaped⟩
        simp only [Registry.restoreRecords, if_neg hwanted, hrest]

/-- Giving up the patches of a module. -/
theorem detachRecords_reshapes
    (hhost : host.Fallible fit patches)
    (module : Nat) (records : List Record) {others : List Nat} {s : σ}
    (hs : fit s)
    (hown : Owns (patches s) (patchesOf records ++ others)) :
    ∃ records' s', Registry.detachRecords host module records s = (records', s') ∧
      Reshaped fit patches others records records' s' := by
  induction records generalizing others s with
  | nil =>
      exact ⟨[], s, rfl, Reshaped.refl hs hown⟩
  | cons r rest ih =>
      have hkeep := Reshaped.owned_after hown (Trades.keep rfl r.patch?)
      by_cases hmodule : r.module = module
      · cases hbacking : r.backing with
        | instantiated p =>
            let bare : Record := { r with backing := .absent }
            obtain ⟨hs1, hview⟩ := hhost.detach p hs
            have htrades : Trades (patches s) (patches (host.detach p s)) r.patch? bare.patch? := by
              have hmine : r.patch? = some p := by
                simp [Record.patch?, hbacking]
              rw [hmine, hview]
              exact Trades.lose (patches s) p
            obtain ⟨rest', s', hrest, hreshaped⟩ := ih hs1 (Reshaped.owned_after hown htrades)
            have hrequest : bare.request = r.request := rfl
            refine ⟨bare :: rest', s', ?_, Reshaped.cons hrequest hreshaped⟩
            simp only [Registry.detachRecords, if_pos hmodule, Record.takePatch, hbacking, hrest]
            rfl
        | _ =>
            obtain ⟨rest', s', hrest, hreshaped⟩ := ih hs hkeep
            refine ⟨r :: rest', s', ?_, Reshaped.cons rfl hreshaped⟩
            simp only [Registry.detachRecords, if_pos hmodule, Record.takePatch, hbacking, hrest]
      · obtain ⟨rest', s', hrest, hreshaped⟩ := ih hs hkeep
        refine ⟨r :: rest', s', ?_, Reshaped.cons rfl hreshaped⟩
        simp only [Registry.detachRecords, if_neg hmodule, hrest]

/-! ## Events -/

namespace Tended

variable {g g' : Registry} {s s' : σ}

theorem reshape
    (h : Tended fit patches g s)
    (hreshaped : Reshaped fit patches [] g.records g'.records s') :
    Tended fit patches g' s' where
  fit := hreshaped.fit
  ordered := h.ordered.of_requests hreshaped.requests
  owned := by
    have hown := hreshaped.owned
    rw [List.append_nil] at hown
    exact hown

theorem owned_alone
    (h : Tended fit patches g s) :
    Owns (patches s) (patchesOf g.records ++ []) := by
  rw [List.append_nil]
  exact h.owned

theorem dropKnown_keeps
    (hhost : host.Fallible fit patches)
    (known : Option KnownMapping)
    (hs : fit s) :
    fit (Registry.dropKnown host known s) ∧
      patches (Registry.dropKnown host known s) = patches s := by
  unfold Registry.dropKnown
  cases known.bind (·.allocator) with
  | none => exact ⟨hs, rfl⟩
  | some a => exact hhost.dropAllocator a hs

theorem allocatorFor_keeps
    (hhost : host.Fallible fit patches)
    (mapping : Mapping)
    (hs : fit s) :
    fit (Registry.allocatorFor host mapping s).2 ∧
      patches (Registry.allocatorFor host mapping s).2 = patches s := by
  unfold Registry.allocatorFor
  cases mapping.executableSpan with
  | none => exact ⟨hs, rfl⟩
  | some span => exact hhost.createAllocator span hs

/-- A module is mapped. -/
theorem mapped
    (hhost : host.Fallible fit patches)
    (h : Tended fit patches g s)
    (module id : Nat) (mapping : Mapping) :
    ∃ finished g' s', g.mapped host module id mapping s = (finished, g', s') ∧
      Tended fit patches g' s' := by
  obtain ⟨allocator, s1, hallocator⟩ :
      ∃ a s1, Registry.allocatorFor host mapping s = (a, s1) := ⟨_, _, rfl⟩
  have hkeeps1 := allocatorFor_keeps hhost mapping h.fit
  rw [hallocator] at hkeeps1
  have h1 := h.of_keeps hkeeps1
  obtain ⟨g2, s2, hlearn⟩ : ∃ g2 s2, g.learn host module id allocator s1 = (g2, s2) := ⟨_, _, rfl⟩
  have h2 : Tended fit patches g2 s2 := by
    have hknown :=
      h1.of_keeps (dropKnown_keeps hhost (g.mappings.find? (·.module = module)) h1.fit)
    cases hlearn
    exact ⟨hknown.fit, hknown.ordered, hknown.owned⟩
  simp only [Registry.mapped, hallocator, hlearn]
  by_cases hwanted : g2.records.any fun r => r.module = module && r.isWanted
  · rw [if_pos hwanted]
    have hrelaxed := hhost.relax_keeps mapping h2.fit
    cases hrelax : host.relax mapping s2 with
    | mk guards s3 =>
        rw [hrelax] at hrelaxed
        have h3 := h2.of_keeps hrelaxed
        cases guards with
        | none =>
            exact ⟨true, g2, s3, rfl, h3⟩
        | some guards =>
            obtain ⟨finished, records', s4, hrestore, hreshaped⟩ :=
              restoreRecords_reshapes hhost module mapping allocator g2.records h3.fit h3.owned_alone
            have h4 : Tended fit patches { g2 with records := records' } s4 := h3.reshape hreshaped
            refine ⟨finished, { g2 with records := records' }, host.releaseAll guards s4, ?_,
              h4.of_keeps (hhost.releaseAll_keeps guards h4.fit)⟩
            simp only [hrestore]
  · rw [if_neg hwanted]
    exact ⟨true, g2, s2, rfl, h2⟩

/-- A mapping goes away. -/
theorem unmapped
    (hhost : host.Fallible fit patches)
    (h : Tended fit patches g s)
    (id : Nat) :
    ∃ g' s', g.unmapped host id s = (g', s') ∧ Tended fit patches g' s' := by
  cases hlookup : g.modules.lookup id with
  | none =>
      refine ⟨g, s, ?_, h⟩
      simp only [Registry.unmapped, hlookup]
  | some module =>
      obtain ⟨records', s1, hdetach, hreshaped⟩ :=
        detachRecords_reshapes hhost module g.records h.fit h.owned_alone
      have h1 : Tended fit patches { g with records := records' } s1 := h.reshape hreshaped
      let isGone (k : KnownMapping) : Bool := k.module = module && k.mapping = id
      let g' : Registry :=
        { g with
          records := records'
          mappings := g.mappings.filter (!isGone ·)
          modules := g.modules.filter (·.1 ≠ id) }
      have h2 := h1.of_keeps (dropKnown_keeps hhost (g.mappings.find? isGone) h1.fit)
      have h' : Tended fit patches g' (Registry.dropKnown host (g.mappings.find? isGone) s1) :=
        ⟨h2.fit, h2.ordered, h2.owned⟩
      refine ⟨g', _, ?_, h'⟩
      simp only [Registry.unmapped, hlookup, hdetach]
      rfl

/-- Events, until one is abandoned. -/
theorem followAll
    (hhost : host.Fallible fit patches)
    (events : List Event)
    (h : Tended fit patches g s) :
    ∃ finished g' s', Registry.followAll host events g s = (finished, g', s') ∧
      Tended fit patches g' s' := by
  induction events generalizing g s with
  | nil =>
      exact ⟨true, g, s, rfl, h⟩
  | cons e rest ih =>
      have hfirst : ∃ finished g1 s1, g.follow host e s = (finished, g1, s1) ∧
          Tended fit patches g1 s1 := by
        cases e with
        | mapped module id mapping =>
            exact h.mapped hhost module id mapping
        | unmapped id =>
            obtain ⟨g1, s1, hunmapped, h1⟩ := h.unmapped hhost id
            exact ⟨true, g1, s1, by rw [Registry.follow, hunmapped], h1⟩
      obtain ⟨finished, g1, s1, hfollow, h1⟩ := hfirst
      cases finished with
      | false =>
          refine ⟨false, g1, s1, ?_, h1⟩
          simp only [Registry.followAll, hfollow]
      | true =>
          obtain ⟨finished, g', s', hrest, h'⟩ := ih h1
          refine ⟨finished, g', s', ?_, h'⟩
          simp only [Registry.followAll, hfollow, hrest]

end Tended

/-! ## The fleet -/

namespace Fleet

/-- The states that a query tells for one function: none without a record, else one. -/
def statusesAt (crew : Crew σ) (name : String) (module offset : Nat) (f : Fleet) (s : σ) :
    Option (List Status) :=
  (f.query crew name module s).map fun states =>
    (states.filter (·.offset = offset)).map (·.status)

/-- Nothing is asked for a function any more, but its patch is active still. -/
def LeftActive (crew : Crew σ) (name : String) (module offset : Nat) (f : Fleet) (s : σ) : Prop :=
  ∃ m r p, f.member? name = some m ∧ m.registry.find? module offset = some r ∧
    r.desired = .dormant ∧ r.backing = .instantiated p ∧ (crew.host name).isActive p s = true

end Fleet

section Fleet

variable {crew : Crew σ} {name : String} {f : Fleet} {s : σ}

/-- The only member of a fleet keeps its tables in order. -/
def Tends (name : String) (fit : σ → Prop) (patches : σ → Nat → Option LivePatch) (f : Fleet) (s : σ) :
    Prop :=
  ∃ t listener g, f = Fleet.single t name listener g ∧ Tended fit patches g s

namespace Tends

theorem perform
    (hhost : (crew.host name).Fallible fit patches)
    (h : Tends name fit patches f s)
    (d : Deed) :
    ∃ answer f' s', f.perform crew name s d = (answer, f', s') ∧ Tends name fit patches f' s' := by
  obtain ⟨t, listener, g, rfl, hg⟩ := h
  cases d with
  | move movement =>
      cases movement with
      | load module mapping =>
          obtain ⟨finished, g', s', hfollow, hg'⟩ := hg.followAll hhost (t.load module mapping).2.1
          refine ⟨.loaded (if finished then some (t.load module mapping).1 else none),
            Fleet.single (t.load module mapping).2.2 name listener g', s', ?_, ⟨_, _, _, rfl, hg'⟩⟩
          simp only [Fleet.perform, Fleet.move, Fleet.load_single, hfollow]
      | unload id =>
          obtain ⟨finished, g', s', hfollow, hg'⟩ := hg.followAll hhost (t.unload id).2.1
          refine ⟨.unloaded (if finished then some (t.unload id).1 else none),
            Fleet.single (t.unload id).2.2 name listener g', s', ?_, ⟨_, _, _, rfl, hg'⟩⟩
          simp only [Fleet.perform, Fleet.move, Fleet.unload_single, hfollow]
  | apply module targets =>
      obtain ⟨changes, g', s', happly, hg', _⟩ := hg.apply hhost t.mapping? module targets
      refine ⟨.replied (changes.map (·.map PatchChange.reply)), Fleet.single t name listener g', s', ?_,
        ⟨t, listener, g', rfl, hg'⟩⟩
      simp only [Fleet.perform, Fleet.apply_single, happly]
  | revert module offsets =>
      obtain ⟨changes, g', s', hrevert, hg', _⟩ := hg.revert hhost t.mapping? module offsets
      refine ⟨.replied (some (changes.map PatchChange.reply)), Fleet.single t name listener g', s', ?_,
        ⟨t, listener, g', rfl, hg'⟩⟩
      simp only [Fleet.perform, Fleet.revert_single, hrevert, Option.map_some]

theorem performAll
    (hhost : (crew.host name).Fallible fit patches)
    (deeds : List Deed)
    (h : Tends name fit patches f s) :
    ∃ answers f' s', Fleet.performAll crew name deeds f s = (answers, f', s') ∧
      Tends name fit patches f' s' := by
  induction deeds generalizing f s with
  | nil =>
      exact ⟨[], f, s, rfl, h⟩
  | cons d rest ih =>
      obtain ⟨answer, f1, s1, hperform, h1⟩ := h.perform hhost d
      obtain ⟨answers, f', s', hrest, h'⟩ := ih h1
      refine ⟨answer :: answers, f', s', ?_, h'⟩
      simp only [Fleet.performAll, hperform, hrest]

end Tends

/-- Modules come and go while nobody listens. -/
theorem Fleet.moveAll_unheard
    (crew : Crew σ) (movements : List Movement) (t : Tracker) (s : σ) :
    ∃ t', Fleet.moveAll crew movements ⟨t, [], []⟩ s = (⟨t', [], []⟩, s) := by
  induction movements generalizing t with
  | nil =>
      exact ⟨t, rfl⟩
  | cons movement rest ih =>
      have hstep : ∃ t1 answer,
          Fleet.move crew ⟨t, [], []⟩ s movement = (answer, ⟨t1, [], []⟩, s) := by
        cases movement with
        | load module mapping =>
            refine ⟨(t.load module mapping).2.2, .loaded (some (t.load module mapping).1), ?_⟩
            simp only [Fleet.move, Fleet.load, Fleet.tell_nobody, if_true]
        | unload id =>
            refine ⟨(t.unload id).2.2, .unloaded (some (t.unload id).1), ?_⟩
            simp only [Fleet.move, Fleet.unload, Fleet.tell_nobody, if_true]
      obtain ⟨t1, answer, hmove⟩ := hstep
      obtain ⟨t', hrest⟩ := ih t1
      refine ⟨t', ?_⟩
      unfold Fleet.moveAll
      rw [List.foldl_cons]
      simp only [hmove]
      exact hrest

/-- A registry has its tables in order after any history. -/
theorem Fleet.run_tends
    (hhost : (crew.host name).Fallible fit patches)
    (hs : fit s)
    (hnone : ∀ p, patches s p = none)
    (earlier : List Movement) (deeds : List Deed) :
    Tends name fit patches (Fleet.run crew name earlier deeds s).2.1
      (Fleet.run crew name earlier deeds s).2.2 := by
  obtain ⟨t, hmoved⟩ := Fleet.moveAll_unheard crew earlier {} s
  have hempty : Tended fit patches {} s := by
    refine ⟨hs, List.Pairwise.nil, List.nodup_nil, ?_⟩
    intro p
    simp [hnone p, patchesOf]
  obtain ⟨finished, g, s1, hfollow, hg⟩ := hempty.followAll hhost t.subscribe.2.1
  have hcreate : Fleet.create crew name false ⟨t, [], []⟩ s =
      (Fleet.single t.subscribe.2.2 name t.subscribe.1 g, s1) := by
    simp only [Fleet.create_single, hfollow]
  have h1 : Tends name fit patches (Fleet.single t.subscribe.2.2 name t.subscribe.1 g) s1 :=
    ⟨_, _, _, rfl, hg⟩
  obtain ⟨answers, f', s', hperform, h'⟩ := h1.performAll hhost deeds
  have hmoved' : Fleet.moveAll crew earlier {} s = (⟨t, [], []⟩, s) := hmoved
  have hrun : Fleet.run crew name earlier deeds s = (answers, f', s') := by
    simp only [Fleet.run, hmoved', hcreate, hperform]
  rw [hrun]
  exact h'

/-- What a query tells of a function. -/
theorem Tended.statusesAt
    (hhost : (crew.host name).Fallible fit patches)
    {t : Tracker} {listener : Nat} {g : Registry}
    (h : Tended fit patches g s)
    (module offset : Nat) :
    Fleet.statusesAt crew name module offset (Fleet.single t name listener g) s =
      some ((g.find? module offset).map (·.statusIn (patches s))).toList := by
  have hquery := h.query hhost module offset
  rw [Fleet.statusesAt, Fleet.query, Fleet.member?_single, Option.map_some, Option.map_some, hquery]

/-- **Answers tell states.**  After any history, of a batch of requests or withdrawals the last answer
for each function agrees with what a query tells right afterwards.  There is one exception: a patch
that was left active is asked for again, and that is answered with an error although it is active. -/
theorem Fleet.outcomes_tell_states
    (hhost : (crew.host name).Fallible fit patches)
    (hs : fit s)
    (hnone : ∀ p, patches s p = none)
    (earlier : List Movement) (deeds : List Deed) (module : Nat) :
    ∃ answers f s₁, Fleet.run crew name earlier deeds s = (answers, f, s₁) ∧
      (∀ targets changes f' s', f.apply crew name module targets s₁ = (some changes, f', s') →
        changes.map (·.offset) = targets.map (·.offset) ∧
        ∀ before c after, changes = before ++ c :: after → (∀ x ∈ after, x.offset ≠ c.offset) →
          ∃ status, f'.statusesAt crew name module c.offset s' = some [status] ∧
            (c.outcome.Applied status ∨
              (c.outcome = .activationError ∧ status = .active ∧
                f.LeftActive crew name module c.offset s₁))) ∧
      (∀ offsets, ∃ changes f' s',
        f.revert crew name module offsets s₁ = (some changes, f', s') ∧
        changes.map (·.offset) = offsets ∧
        ∀ before c after, changes = before ++ c :: after → (∀ x ∈ after, x.offset ≠ c.offset) →
          ∃ status : Option Status,
            f'.statusesAt crew name module c.offset s' = some status.toList ∧
            c.outcome.Reverted status) ∧
      ((crew.host name).Finishes → ∀ targets, ∃ changes f' s',
        f.apply crew name module targets s₁ = (some changes, f', s')) := by
  have h := Fleet.run_tends hhost hs hnone earlier deeds
  obtain ⟨answers, f, s₁, hrun⟩ :
      ∃ answers f s₁, Fleet.run crew name earlier deeds s = (answers, f, s₁) := ⟨_, _, _, rfl⟩
  rw [hrun] at h
  obtain ⟨t, listener, g, rfl, hg⟩ := h
  refine ⟨answers, Fleet.single t name listener g, s₁, hrun, ?_, ?_, ?_⟩
  · intro targets changes f' s' hanswered
    obtain ⟨answer, g', s2, happly, hg', hagrees⟩ := hg.apply hhost t.mapping? module targets
    simp only [Fleet.apply, Fleet.member?_single, Fleet.pin_single, happly,
      Fleet.setMember_single, Prod.mk.injEq] at hanswered
    obtain ⟨hchanges, rfl, rfl⟩ := hanswered
    obtain ⟨hoffsets, hlast⟩ := hagrees changes hchanges
    refine ⟨hoffsets, ?_⟩
    intro before c after heq hafter
    obtain ⟨r, hfind, hagree⟩ := hlast before c after heq hafter
    refine ⟨r.statusIn (patches s2), ?_, hagree.imp_right ?_⟩
    · rw [hg'.statusesAt hhost, hfind]
      rfl
    · rintro ⟨herror, hactive, x, hx, hdormant, p, lp, hp, hlive, hdiverts⟩
      refine ⟨herror, hactive, _, x, p, Fleet.member?_single t name listener g, hx, hdormant,
        Record.backing_of_patch hp, ?_⟩
      rw [hhost.isActive p hg.fit, hlive]
      exact hdiverts
  · intro offsets
    obtain ⟨changes, g', s2, hrevert, hg', hoffsets, hlast⟩ :=
      hg.revert hhost t.mapping? module offsets
    refine ⟨changes, Fleet.single t name listener g', s2, ?_, hoffsets, ?_⟩
    · simp only [Fleet.revert, Fleet.member?_single, Fleet.pin_single, hrevert,
        Fleet.setMember_single]
    · intro before c after heq hafter
      exact ⟨_, hg'.statusesAt hhost module c.offset, hlast before c after heq hafter⟩
  · intro hfinishes targets
    obtain ⟨changes, g', s2, happly⟩ := hfinishes.apply t.mapping? module targets g s₁
    refine ⟨changes, Fleet.single t name listener g', s2, ?_⟩
    simp only [Fleet.apply, Fleet.member?_single, Fleet.pin_single, happly,
      Fleet.setMember_single]

/-- A patch that switching on does not change, in a module loaded before the registry listens; it is asked for
again, together with one that switching on does change. -/
theorem Fleet.outcomes_tell_states_stubborn :
    let code : Mapping := ⟨none, 0x10000, [⟨⟨0x10000, 0x11000⟩, ⟨true, false, true⟩⟩]⟩
    let start : Rehearsal := { faults := [(0x10010, .stubborn)] }
    ∃ answers f s₁,
      Fleet.run Rehearsal.crew "a" [.load 1 code] [.apply 1 [⟨16, 8⟩]] start = (answers, f, s₁) ∧
      (f.apply Rehearsal.crew "a" 1 [⟨16, 8⟩, ⟨32, 0⟩] s₁).1 =
        some [⟨1, 16, 8, .activationError⟩, ⟨2, 32, 0, .ok⟩] ∧
      (∀ targets changes f' s', f.apply Rehearsal.crew "a" 1 targets s₁ = (some changes, f', s') →
        changes.map (·.offset) = targets.map (·.offset) ∧
        ∀ before c after, changes = before ++ c :: after → (∀ x ∈ after, x.offset ≠ c.offset) →
          ∃ status, f'.statusesAt Rehearsal.crew "a" 1 c.offset s' = some [status] ∧
            (c.outcome.Applied status ∨
              (c.outcome = .activationError ∧ status = .active ∧
                f.LeftActive Rehearsal.crew "a" 1 c.offset s₁))) ∧
      ∀ offsets, ∃ changes f' s',
        f.revert Rehearsal.crew "a" 1 offsets s₁ = (some changes, f', s') ∧
        changes.map (·.offset) = offsets ∧
        ∀ before c after, changes = before ++ c :: after → (∀ x ∈ after, x.offset ≠ c.offset) →
          ∃ status : Option Status,
            f'.statusesAt Rehearsal.crew "a" 1 c.offset s' = some status.toList ∧
            c.outcome.Reverted status := by
  intro code start
  have hfit : start.Numbered := by
    intro k p hp
    cases hp
  have hnone : ∀ p, start.livePatch p = none := fun _ => rfl
  have hhost : (Rehearsal.crew.host "a").Fallible Rehearsal.Numbered Rehearsal.livePatch :=
    Rehearsal.host_fallible "a"
  obtain ⟨answers, f, s₁, hrun, happly, hrevert, -⟩ := Fleet.outcomes_tell_states
    hhost hfit hnone [.load 1 code] [.apply 1 [⟨16, 8⟩]] 1
  refine ⟨answers, f, s₁, hrun, ?_, happly, hrevert⟩
  obtain ⟨-, rfl, rfl⟩ : _ = answers ∧ _ = f ∧ _ = s₁ := by
    simpa only [Prod.ext_iff] using hrun
  decide +kernel

end Fleet

/-! ## The exception -/

namespace Rehearsal

/-- A host that refuses to make code writable once it has given out three numbers. -/
def tiringHost (log : String) : Host Rehearsal :=
  { Rehearsal.host log with
    protect := fun region r => if 3 ≤ r.next then (none, r) else protect log region r }

theorem tiringHost_fallible
    (log : String) :
    (tiringHost log).Fallible Numbered livePatch :=
  { createAllocator := (host_fallible log).createAllocator
    dropAllocator := (host_fallible log).dropAllocator
    protect := by
      intro region r h
      simp only [tiringHost]
      split
      · exact ⟨h, rfl⟩
      · exact (host_fallible log).protect region h
    release := (host_fallible log).release
    build := (host_fallible log).build
    activate := (host_fallible log).activate
    revert := (host_fallible log).revert
    isActive := (host_fallible log).isActive
    remove := (host_fallible log).remove
    detach := (host_fallible log).detach }

end Rehearsal

/-- A patch is reverted while the code cannot be made writable, and asked for again: the answer is an
error, and the patch is active. -/
theorem Fleet.active_patch_answers_error :
    let crew : Crew Rehearsal := ⟨Rehearsal.tiringHost, fun _ _ r => r⟩
    let code : Mapping := ⟨none, 0x10000, [⟨⟨0x10000, 0x11000⟩, ⟨true, false, true⟩⟩]⟩
    let after := Fleet.run crew "a" [.load 1 code] [.apply 1 [⟨16, 8⟩], .revert 1 [16]] {}
    let again := after.2.1.apply crew "a" 1 [⟨16, 8⟩] after.2.2
    (crew.host "a").Fallible Rehearsal.Numbered Rehearsal.livePatch ∧
      again.1 = some [⟨1, 16, 8, .activationError⟩] ∧
      again.2.1.statusesAt crew "a" 1 16 again.2.2 = some [.active] := by
  intro crew code after again
  exact ⟨Rehearsal.tiringHost_fallible "a", by decide +kernel, by decide +kernel⟩

end CallProfiler.Image
