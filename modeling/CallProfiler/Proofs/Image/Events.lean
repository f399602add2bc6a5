import CallProfiler.Proofs.Image.Realization

/-!
# A registry follows its modules

When a module is mapped the registry brings its wanted patches into memory, and when it goes away it
gives them up.  Both walk over the records and change what exists of some of them; `Reworked` says
what such a walk has done.  The patches of records outside the walk are carried along as `others`.

**Main statements.**
* `restoreRecords`, `detachRecords`: the two walks.
* `Realizes.mapped`, `Realizes.unmapped`: the events of the tracker keep the relation.
-/

namespace CallProfiler.Image

variable {σ : Type} {host : Host σ} {fit : σ → Prop} {patches : σ → Nat → Option LivePatch}

/-- Records have been brought in line with the places of modules, request by request. -/
structure Reworked
    (fit : σ → Prop) (patches : σ → Nat → Option LivePatch) (places : Places)
    (others : List Nat) (records : List Record) (s : σ) (records' : List Record) (s' : σ) : Prop where
  fit : fit s'
  requests : records'.map Record.request = records.map Record.request
  backed : ∀ r ∈ records', r.Backed (patches s') places
  owned : Owns (patches s') (patchesOf records' ++ others)
  frame : ∀ p ∈ others, patches s' p = patches s p

namespace Reworked

variable {places : Places} {others : List Nat} {r r' : Record} {rest rest' : List Record}
  {s s' s'' : σ}

theorem nil
    (hs : fit s)
    (hown : Owns (patches s) (patchesOf [] ++ others)) :
    Reworked fit patches places others [] s [] s where
  fit := hs
  requests := rfl
  backed := fun _ hr => absurd hr List.not_mem_nil
  owned := hown
  frame := fun _ _ => rfl

/-- What one record trades does not touch the records after it. -/
theorem after_one
    (places : Places)
    (hown : Owns (patches s) (patchesOf (r :: rest) ++ others))
    (htrades : Trades (patches s) (patches s') r.patch? r'.patch?) :
    Owns (patches s') (patchesOf rest ++ (r'.patch?.toList ++ others)) ∧
      (∀ x ∈ rest, x.Backed (patches s) places → x.Backed (patches s') places) ∧
      ∀ p ∈ others, patches s' p = patches s p := by
  rw [patchesOf_cons, List.append_assoc] at hown
  obtain ⟨hown', hframe⟩ := htrades _ hown
  refine ⟨hown'.perm (List.perm_append_comm_assoc _ _ _), ?_, ?_⟩
  · intro x hx hbacked
    refine hbacked.congr rfl ?_
    intro p hp
    exact hframe p (List.mem_append_left _ (mem_patchesOf hx hp))
  · intro p hp
    exact hframe p (List.mem_append_right _ hp)

/-- One record, then the rest. -/
theorem cons
    (hown : Owns (patches s) (patchesOf (r :: rest) ++ others))
    (hrequest : r'.request = r.request)
    (hbacked : r'.Backed (patches s') places)
    (htrades : Trades (patches s) (patches s') r.patch? r'.patch?)
    (hrest : Reworked fit patches places (r'.patch?.toList ++ others) rest s' rest' s'') :
    Reworked fit patches places others (r :: rest) s (r' :: rest') s'' where
  fit := hrest.fit
  requests := by
    rw [List.map_cons, List.map_cons, hrequest, hrest.requests]
  backed := by
    intro x hx
    rcases List.mem_cons.1 hx with rfl | hx
    · refine hbacked.congr rfl ?_
      intro p hp
      refine hrest.frame p (List.mem_append_left _ ?_)
      rw [hp]
      exact List.mem_singleton.2 rfl
    · exact hrest.backed x hx
  owned := by
    rw [patchesOf_cons, List.append_assoc]
    exact hrest.owned.perm (List.perm_append_comm_assoc _ _ _)
  frame := by
    intro p hp
    obtain ⟨_, _, hframe⟩ := after_one places hown htrades
    rw [hrest.frame p (List.mem_append_right _ hp), hframe p hp]

end Reworked

/-! ## The walks -/

section Walks

variable {places places' : Places} {module : Nat}

/-- A record that is not wanted is in order wherever its module is mapped. -/
theorem Record.Backed.of_unwanted
    {view : Nat → Option LivePatch} {r : Record}
    (h : r.Backed view places)
    (hothers : ∀ m, m ≠ module → places' m = places m)
    (hunwanted : ¬ (r.module = module ∧ r.isWanted)) :
    r.Backed view places' := by
  by_cases hmodule : r.module = module
  · have hdormant : r.desired = .dormant := by
      cases hdesired : r.desired with
      | dormant =>
          rfl
      | active =>
          refine absurd ⟨hmodule, ?_⟩ hunwanted
          simp [Record.isWanted, hdesired, h.ne_broken]
    refine Record.backed_absent ?_ (h.of_none ?_)
    · simp [Record.place?, hdormant]
    · simp [Record.place?, hdormant]
  · exact h.congr (hothers _ hmodule) fun _ _ => rfl

/-- Giving up the patches of a module. -/
theorem detachRecords
    (hhost : host.Obliging fit patches)
    (hothers : ∀ m, m ≠ module → places' m = places m)
    (hgone : places' module = none)
    (records : List Record) {others : List Nat} {s : σ}
    (hs : fit s)
    (hown : Owns (patches s) (patchesOf records ++ others))
    (hbacked : ∀ r ∈ records, r.Backed (patches s) places) :
    ∃ records' s', Registry.detachRecords host module records s = (records', s') ∧
      Reworked fit patches places' others records s records' s' := by
  induction records generalizing others s with
  | nil =>
      exact ⟨[], s, rfl, Reworked.nil hs hown⟩
  | cons r rest ih =>
      have hr := hbacked r List.mem_cons_self
      -- what happens to the first record decides in which state the walk goes on
      have hgoOn : ∀ (r' : Record) {s1 : σ}, fit s1 → r'.request = r.request →
          r'.Backed (patches s1) places' → Trades (patches s) (patches s1) r.patch? r'.patch? →
          ∃ rest' s', Registry.detachRecords host module rest s1 = (rest', s') ∧
            Reworked fit patches places' others (r :: rest) s (r' :: rest') s' := by
        intro r' s1 hs1 hrequest hr' htrades
        obtain ⟨hown1, hbacked1, _⟩ := Reworked.after_one places hown htrades
        obtain ⟨rest', s', hrest, hreworked⟩ := ih hs1 hown1
          fun x hx => hbacked1 x hx (hbacked x (List.mem_cons_of_mem _ hx))
        exact ⟨rest', s', hrest, Reworked.cons hown hrequest hr' htrades hreworked⟩
      by_cases hmodule : r.module = module
      · have hplace : ∀ r' : Record, r'.module = r.module → r'.place? places' = none := by
          intro r' hsame
          unfold Record.place?
          rw [hsame, hmodule, hgone]
          cases r'.desired <;> rfl
        cases hbacking : r.backing with
        | broken =>
            exact absurd hbacking hr.ne_broken
        | absent =>
            obtain ⟨rest', s', hrest, hreworked⟩ :=
              hgoOn r hs rfl (Record.backed_absent (hplace r rfl) hbacking) (Trades.keep rfl _)
            refine ⟨r :: rest', s', ?_, hreworked⟩
            simp only [Registry.detachRecords, if_pos hmodule, Record.takePatch, hbacking, hrest]
        | instantiated p =>
            let bare : Record := { r with backing := .absent }
            obtain ⟨hs1, hview⟩ := hhost.detach p hs
            have htrades : Trades (patches s) (patches (host.detach p s)) r.patch? bare.patch? := by
              have hmine : r.patch? = some p := by
                simp [Record.patch?, hbacking]
              rw [hmine, hview]
              exact Trades.lose (patches s) p
            obtain ⟨rest', s', hrest, hreworked⟩ :=
              hgoOn bare hs1 rfl (Record.backed_absent (hplace bare rfl) rfl) htrades
            refine ⟨bare :: rest', s', ?_, hreworked⟩
            simp only [Registry.detachRecords, if_pos hmodule, Record.takePatch, hbacking, hrest]
            rfl
      · obtain ⟨rest', s', hrest, hreworked⟩ :=
          hgoOn r hs rfl (hr.congr (hothers _ hmodule) fun _ _ => rfl) (Trades.keep rfl _)
        refine ⟨r :: rest', s', ?_, hreworked⟩
        simp only [Registry.detachRecords, if_neg hmodule, hrest]

/-- Bringing the wanted patches of a module into memory. -/
theorem restoreRecords
    (hhost : host.Obliging fit patches)
    {id : Nat} {mapping : Mapping}
    (hothers : ∀ m, m ≠ module → places' m = places m)
    (hbefore : places module = none)
    (hafter : places' module = some (id, mapping))
    (a : Nat) (records : List Record) {others : List Nat} {s : σ}
    (hs : fit s)
    (hown : Owns (patches s) (patchesOf records ++ others))
    (hbacked : ∀ r ∈ records, r.Backed (patches s) places) :
    ∃ records' s',
      Registry.restoreRecords host module mapping (some a) records s = (true, records', s') ∧
      Reworked fit patches places' others records s records' s' := by
  induction records generalizing others s with
  | nil =>
      exact ⟨[], s, rfl, Reworked.nil hs hown⟩
  | cons r rest ih =>
      have hr := hbacked r List.mem_cons_self
      have hgoOn : ∀ (r' : Record) {s1 : σ}, fit s1 → r'.request = r.request →
          r'.Backed (patches s1) places' → Trades (patches s) (patches s1) r.patch? r'.patch? →
          ∃ rest' s',
            Registry.restoreRecords host module mapping (some a) rest s1 = (true, rest', s') ∧
            Reworked fit patches places' others (r :: rest) s (r' :: rest') s' := by
        intro r' s1 hs1 hrequest hr' htrades
        obtain ⟨hown1, hbacked1, _⟩ := Reworked.after_one places hown htrades
        obtain ⟨rest', s', hrest, hreworked⟩ := ih hs1 hown1
          fun x hx => hbacked1 x hx (hbacked x (List.mem_cons_of_mem _ hx))
        exact ⟨rest', s', hrest, Reworked.cons hown hrequest hr' htrades hreworked⟩
      by_cases hwanted : r.module = module ∧ r.isWanted
      · have hbacking : r.backing = .absent := by
          apply hr.of_none
          cases hdesired : r.desired <;> simp [Record.place?, hdesired, hwanted.1, hbefore]
        have hdesired : r.desired = .active := by
          have hboth := hwanted.2
          simp only [Record.isWanted, Bool.and_eq_true, decide_eq_true_eq] at hboth
          exact hboth.1
        obtain ⟨p, s1, hinstantiate, hs1, hlive, htrades⟩ :=
          Record.instantiate_of_absent hhost mapping a hbacking hs
        let built : Record := { r with backing := .instantiated p }
        have hplace : built.place? places' = some (mapping.addressOf r.offset) := by
          simp [built, Record.place?, hdesired, hwanted.1, hafter]
        have hnone : r.patch? = none := by
          simp [Record.patch?, hbacking]
        obtain ⟨rest', s', hrest, hreworked⟩ :=
          hgoOn built hs1 rfl (Record.backed_instantiated hplace rfl hlive)
            (hnone ▸ htrades)
        refine ⟨built :: rest', s', ?_, hreworked⟩
        simp only [Registry.restoreRecords, if_pos hwanted, hinstantiate, hrest]
        rfl
      · have hkeep := hr.of_unwanted hothers hwanted
        obtain ⟨rest', s', hrest, hreworked⟩ := hgoOn r hs rfl hkeep (Trades.keep rfl _)
        refine ⟨r :: rest', s', ?_, hreworked⟩
        simp only [Registry.restoreRecords, if_neg hwanted, hrest]

end Walks

/-! ## Events -/

theorem Registry.dropKnown_keeps
    (hhost : host.Obliging fit patches)
    (known : Option KnownMapping) {s : σ}
    (hs : fit s) :
    fit (Registry.dropKnown host known s) ∧
      patches (Registry.dropKnown host known s) = patches s := by
  unfold Registry.dropKnown
  cases known.bind (·.allocator) with
  | none =>
      exact ⟨hs, rfl⟩
  | some a =>
      exact hhost.dropAllocator a hs

theorem Registry.allocatorFor_eq
    (hhost : host.Obliging fit patches)
    {mapping : Mapping} {s : σ}
    (hcode : mapping.executableRegions ≠ [])
    (hs : fit s) :
    ∃ a s', Registry.allocatorFor host mapping s = (some a, s') ∧
      fit s' ∧ patches s' = patches s := by
  obtain ⟨region, rest, hregions⟩ := List.exists_cons_of_ne_nil hcode
  have hspan : mapping.executableSpan =
      some ((rest.map (·.range)).foldl Memory.Range.join region.range) := by
    unfold Mapping.executableSpan
    rw [hregions]
    rfl
  unfold Registry.allocatorFor
  rw [hspan]
  exact hhost.createAllocator _ hs

theorem lookup_filter_ne_append
    {α : Type} (l : List (Nat × α)) (k q : Nat) (x : α) :
    (l.filter (·.1 ≠ k) ++ [(k, x)]).lookup q = if q = k then some x else l.lookup q := by
  rw [List.lookup_append, Rehearsal.lookup_filter_ne]
  by_cases hq : q = k
  · simp [hq]
  · have hne : (q == k) = false := by
      simpa using hq
    simp [hq, List.lookup_cons, hne]

namespace Realizes

variable {w w' : Wishes} {g g' : Registry} {s s' : σ}

/-- The records are in line with other places of the modules. -/
theorem rework
    (h : Realizes fit patches w g s)
    (hlast : w'.last = w.last)
    (hreworked : Reworked fit patches w'.current [] g.records s g'.records s')
    (hknown : ∀ module id, (∃ mapping, w'.current module = some (id, mapping)) ↔
      ∃ k ∈ g'.mappings, k.module = module ∧ k.mapping = id)
    (hallocators : ∀ k ∈ g'.mappings, k.allocator.isSome)
    (hmodules : ∀ id module, g'.modules.lookup id = some module ↔
      ∃ mapping, w'.current module = some (id, mapping)) :
    Realizes fit patches w' g' s' where
  fit := hreworked.fit
  ordered := h.ordered.of_requests hreworked.requests
  numbered := by
    intro r hr
    obtain ⟨x, hx, hrequest⟩ := mem_of_requests hreworked.requests hr
    have hid : x.id = r.id := congrArg (·.id) hrequest
    exact hid ▸ h.numbered x hx
  requested := by
    have hfind : ∀ {l l' : List Record}, l'.map Record.request = l.map Record.request →
        ∀ module offset desired,
          (∃ r ∈ l', r.module = module ∧ r.offset = offset ∧ r.desired = desired) →
          ∃ r ∈ l, r.module = module ∧ r.offset = offset ∧ r.desired = desired := by
      rintro l l' hsame module offset desired ⟨r, hr, rfl, rfl, rfl⟩
      obtain ⟨x, hx, hrequest⟩ := mem_of_requests hsame hr
      exact ⟨x, hx, congrArg (·.module) hrequest, congrArg (·.offset) hrequest,
        congrArg (·.desired) hrequest⟩
    intro module offset desired
    rw [hlast, h.requested]
    exact ⟨hfind hreworked.requests.symm module offset desired,
      hfind hreworked.requests module offset desired⟩
  backed := hreworked.backed
  owned := by
    have hown := hreworked.owned
    rw [List.append_nil] at hown
    exact hown
  known := hknown
  allocators := hallocators
  modules := hmodules

/-- The mapping of a module becomes known in place of the one before. -/
theorem known_place
    (h : Realizes fit patches w g s)
    (module id : Nat) (mapping : Mapping) (allocator : Option Nat) (m i : Nat) :
    (∃ mapping', (w.place module id mapping).current m = some (i, mapping')) ↔
      ∃ k ∈ g.mappings.filter (·.module ≠ module) ++ [⟨module, id, allocator⟩],
        k.module = m ∧ k.mapping = i := by
  have hmem : ∀ k, k ∈ g.mappings.filter (·.module ≠ module) ++ [⟨module, id, allocator⟩] ↔
      (k ∈ g.mappings ∧ k.module ≠ module) ∨ k = ⟨module, id, allocator⟩ := by
    intro k
    simp
  by_cases hm : m = module
  · subst hm
    rw [Wishes.place_current_self]
    constructor
    · rintro ⟨_, hsame⟩
      cases hsame
      exact ⟨_, (hmem _).2 (.inr rfl), rfl, rfl⟩
    · rintro ⟨k, hk, hmodule, hmapping⟩
      rcases (hmem k).1 hk with ⟨_, hother⟩ | rfl
      · exact absurd hmodule hother
      · exact ⟨mapping, by rw [← hmapping]⟩
  · rw [Wishes.place_current_of_ne w id mapping hm, h.known]
    constructor
    · rintro ⟨k, hk, hmodule, hmapping⟩
      exact ⟨k, (hmem k).2 (.inl ⟨hk, hmodule ▸ hm⟩), hmodule, hmapping⟩
    · rintro ⟨k, hk, hmodule, hmapping⟩
      rcases (hmem k).1 hk with ⟨hk, _⟩ | rfl
      · exact ⟨k, hk, hmodule, hmapping⟩
      · exact absurd hmodule.symm hm

/-- The module of a new mapping becomes known, and of no other mapping. -/
theorem modules_place
    (h : Realizes fit patches w g s)
    {module id : Nat}
    (hnone : w.current module = none)
    (hfresh : ∀ m mapping', w.current m ≠ some (id, mapping'))
    (mapping : Mapping) (i m : Nat) :
    (g.modules.filter (·.1 ≠ id) ++ [(id, module)]).lookup i = some m ↔
      ∃ mapping', (w.place module id mapping).current m = some (i, mapping') := by
  rw [lookup_filter_ne_append]
  by_cases hm : m = module
  · subst hm
    rw [Wishes.place_current_self]
    by_cases hi : i = id
    · simp [hi]
    · simp [hi, h.modules, hnone, Ne.symm hi]
  · rw [Wishes.place_current_of_ne w id mapping hm]
    by_cases hi : i = id
    · simp [hi, hfresh, Ne.symm hm]
    · rw [if_neg hi, h.modules]

/-- **A module is mapped**, when it has no mapping. -/
theorem mapped
    (hhost : host.Obliging fit patches)
    (h : Realizes fit patches w g s)
    {module id : Nat} {mapping : Mapping}
    (hnone : w.current module = none)
    (hfresh : ∀ m mapping', w.current m ≠ some (id, mapping'))
    (hcode : mapping.executableRegions ≠ []) :
    ∃ g' s', g.mapped host module id mapping s = (true, g', s') ∧
      Realizes fit patches (w.place module id mapping) g' s' := by
  obtain ⟨a, s1, hallocator, hkeeps1⟩ := Registry.allocatorFor_eq hhost hcode h.fit
  have h1 := h.of_keeps hkeeps1
  let g2 : Registry :=
    { g with
      mappings := g.mappings.filter (·.module ≠ module) ++ [⟨module, id, some a⟩]
      modules := g.modules.filter (·.1 ≠ id) ++ [(id, module)] }
  let s2 := Registry.dropKnown host (g.mappings.find? (·.module = module)) s1
  have hlearn : g.learn host module id (some a) s1 = (g2, s2) := rfl
  have h2 : Realizes fit patches w g s2 :=
    h1.of_keeps (Registry.dropKnown_keeps hhost _ h1.fit)
  have hallocators : ∀ k ∈ g2.mappings, k.allocator.isSome := by
    intro k hk
    rcases List.mem_append.1 hk with hk | hk
    · exact h.allocators k (List.mem_filter.1 hk).1
    · rw [List.mem_singleton.1 hk]
      rfl
  -- whatever the walk over the records does, the tables stay those of `g2`
  have hfinish : ∀ {s0 records' s'}, Realizes fit patches w g s0 →
      Reworked fit patches (w.place module id mapping).current [] g.records s0 records' s' →
      Realizes fit patches (w.place module id mapping) { g2 with records := records' } s' :=
    fun h0 hreworked => h0.rework rfl hreworked (h.known_place module id mapping (some a))
      hallocators (h.modules_place hnone hfresh mapping)
  have hothers : ∀ m, m ≠ module → (w.place module id mapping).current m = w.current m :=
    fun m hm => Wishes.place_current_of_ne w id mapping hm
  simp only [Registry.mapped, hallocator, hlearn]
  by_cases hwanted : g2.records.any fun r => r.module = module && r.isWanted
  · rw [if_pos hwanted]
    obtain ⟨guards, s3, hrelax, hkeeps3⟩ := hhost.relax_eq mapping h2.fit
    have h3 := h2.of_keeps hkeeps3
    have hown : Owns (patches s3) (patchesOf g.records ++ []) := by
      rw [List.append_nil]
      exact h3.owned
    obtain ⟨records', s4, hrestore, hreworked⟩ :=
      restoreRecords hhost hothers hnone (Wishes.place_current_self w module id mapping) a g.records
        h3.fit hown h3.backed
    have h4 := hfinish h3 hreworked
    refine ⟨{ g2 with records := records' }, host.releaseAll guards s4, ?_,
      h4.of_keeps (hhost.releaseAll_keeps guards h4.fit)⟩
    have hrestore' : Registry.restoreRecords host module mapping (some a) g2.records s3 =
        (true, records', s4) := hrestore
    simp only [hrelax, hrestore']
  · rw [if_neg hwanted]
    refine ⟨g2, s2, rfl, hfinish h2 ?_⟩
    exact
      { fit := h2.fit
        requests := rfl
        backed := by
          intro r hr
          refine (h2.backed r hr).of_unwanted hothers ?_
          rintro ⟨hmodule, hboth⟩
          refine hwanted (List.any_eq_true.2 ⟨r, hr, ?_⟩)
          simp [hmodule, hboth]
        owned := by
          rw [List.append_nil]
          exact h2.owned
        frame := fun _ _ => rfl }

/-- **A mapping goes away**, known or not. -/
theorem unmapped
    (hhost : host.Obliging fit patches)
    (h : Realizes fit patches w g s)
    (id : Nat) :
    ∃ g' s', g.unmapped host id s = (g', s') ∧ Realizes fit patches (w.unload id) g' s' := by
  cases hlookup : g.modules.lookup id with
  | none =>
      have hsame : w.unload id = w := by
        have hcurrent : (w.unload id).current = w.current := by
          funext m
          refine Wishes.unload_current_of_ne ?_
          intro mapping hm
          have hsome := (h.modules id m).2 ⟨mapping, hm⟩
          rw [hlookup] at hsome
          cases hsome
        exact congrArg (fun current => { w with current }) hcurrent
      refine ⟨g, s, ?_, ?_⟩
      · simp only [Registry.unmapped, hlookup]
      · rw [hsame]
        exact h
  | some module =>
      obtain ⟨mapping, hmapped⟩ := (h.modules id module).1 hlookup
      have hunique : ∀ m mapping', w.current m = some (id, mapping') → m = module := by
        intro m mapping' hm
        have hsome := (h.modules id m).2 ⟨mapping', hm⟩
        rw [hlookup] at hsome
        exact (Option.some.inj hsome).symm
      have hgone : (w.unload id).current module = none := by
        simp [Wishes.unload, hmapped]
      have hothers : ∀ m, m ≠ module → (w.unload id).current m = w.current m := by
        intro m hm
        exact Wishes.unload_current_of_ne fun mapping' hcurrent => hm (hunique m mapping' hcurrent)
      have hown : Owns (patches s) (patchesOf g.records ++ []) := by
        rw [List.append_nil]
        exact h.owned
      obtain ⟨records', s1, hdetach, hreworked⟩ :=
        detachRecords hhost hothers hgone g.records h.fit hown h.backed
      let isGone (k : KnownMapping) : Bool := k.module = module && k.mapping = id
      let g' : Registry :=
        { g with
          records := records'
          mappings := g.mappings.filter (!isGone ·)
          modules := g.modules.filter (·.1 ≠ id) }
      have hg' : Realizes fit patches (w.unload id) g' s1 := by
        refine h.rework rfl hreworked ?_ ?_ ?_
        · intro m i
          constructor
          · rintro ⟨mapping', hm⟩
            obtain ⟨hm, hi⟩ := Wishes.unload_current.1 hm
            obtain ⟨k, hk, hmodule, hmapping⟩ := (h.known m i).1 ⟨mapping', hm⟩
            refine ⟨k, List.mem_filter.2 ⟨hk, ?_⟩, hmodule, hmapping⟩
            simp [isGone, hmapping, hi]
          · rintro ⟨k, hk, hmodule, hmapping⟩
            obtain ⟨hk, hkept⟩ := List.mem_filter.1 hk
            obtain ⟨mapping', hm⟩ := (h.known m i).2 ⟨k, hk, hmodule, hmapping⟩
            refine ⟨mapping', Wishes.unload_current.2 ⟨hm, ?_⟩⟩
            rintro rfl
            have hsame : m = module := hunique m mapping' hm
            simp [isGone, hmodule, hmapping, hsame] at hkept
        · intro k hk
          exact h.allocators k (List.mem_filter.1 hk).1
        · intro i m
          rw [show g'.modules.lookup i = _ from Rehearsal.lookup_filter_ne g.modules id i]
          by_cases hi : i = id
          · simp [hi, Wishes.unload_current]
          · rw [if_neg hi, h.modules]
            simp [Wishes.unload_current, hi]
      refine ⟨g', Registry.dropKnown host (g.mappings.find? isGone) s1, ?_, ?_⟩
      · simp only [Registry.unmapped, hlookup, hdetach]
        rfl
      · exact hg'.of_keeps (Registry.dropKnown_keeps hhost _ hg'.fit)

end Realizes

end CallProfiler.Image
