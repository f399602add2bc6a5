import CallProfiler.Proofs.Recording.Progress
import CallProfiler.Proofs.Recording.Returns

/-!
# Calls that are abandoned

When the stack is unwound to some caller, the calls inside it end without an exit.  The recorder is not
told: it has them open until an exit of a call that survived closes them.  Calls that are made meanwhile
come to lie on top of abandoned ones, which may have been deeper in the stack.

An exit at the slot of the innermost call that survived closes this call with everything on top of it,
and also the abandoned calls right below it whose slots do not lie above its own.  With such calls below
it the exit does not give the return address of its own call, but that of the outermost of them.

**Main statements.**
* `Trail.Mirrors.step`: what an exit gives, and what stays open, when calls are abandoned.
* `surviving_calls_return`: for any calls, which return address every exit gives, and exactly when it is
  the one of its call.
* `abandoned_call_misleads_exit`: an exit that gives the return address of an abandoned call.
-/

namespace CallProfiler.Recording

open Profile (Event)

/-- What happens to the calls of a thread. -/
inductive Move where
  /-- A call is made. -/
  | enter (call : OpenCall) (timestamp callee : UInt64)
  /-- So many of the calls that survived so far are abandoned, from the innermost on. -/
  | abandon (count : Nat)
  /-- The innermost call that survived is left. -/
  | leave (timestamp : UInt64)
  deriving DecidableEq

/-- A call that was made and that no exit has closed. -/
structure Noted where
  call : OpenCall
  survives : Bool
  deriving DecidableEq

/-- A call that survived is left. -/
structure Departure where
  call : OpenCall
  /-- The abandoned calls right below it whose slots do not lie above its own, the nearest first. -/
  buried : List OpenCall
  deriving DecidableEq

/-- The return address of the outermost call that is closed. -/
def Departure.answer (d : Departure) : UInt64 := (d.buried.getLastD d.call).returnAddress

/-- The calls that no exit has closed, the innermost first. -/
abbrev Trail := List Noted

namespace Trail

/-- The slot of the innermost call that survived, or the highest one if none did. -/
def callerSlot : Trail → UInt64
  | [] => ReturnStack.sentinel.slot
  | n :: rest => if n.survives then n.call.slot else callerSlot rest

/-- The innermost calls that survived so far are abandoned. -/
def abandon : Nat → Trail → Trail
  | 0, t => t
  | _, [] => []
  | count + 1, n :: rest =>
    if n.survives then { n with survives := false } :: abandon count rest
    else n :: abandon (count + 1) rest

/-- An abandoned call whose slot does not lie above `slot`. -/
def lostBelow (slot : UInt64) (n : Noted) : Bool := !n.survives && n.call.slot ≤ slot

/-- The innermost call that survived is left. -/
def leave? : Trail → Option (Departure × Trail)
  | [] => none
  | n :: rest =>
    if n.survives then
      some (⟨n.call, (rest.takeWhile (lostBelow n.call.slot)).map (·.call)⟩,
        rest.dropWhile (lostBelow n.call.slot))
    else leave? rest

def step (t : Trail) : Move → Trail
  | .enter call _ _ => ⟨call, true⟩ :: t
  | .abandon count => t.abandon count
  | .leave _ => (t.leave?.map (·.2)).getD t

/-- Who is left in a move. -/
def departing (t : Trail) : Move → List Departure
  | .leave _ => (t.leave?.map (·.1)).toList
  | _ => []

/-- What the thread calls the recorder for. -/
def turnsIn (thread : Nat) (t : Trail) : Move → List Turn
  | .enter call timestamp callee => [.enter thread call.slot call.returnAddress timestamp callee]
  | .abandon _ => []
  | .leave timestamp => (t.departing (.leave timestamp)).map fun d => .exit thread d.call.slot timestamp

/-- A call is made below the slot of the innermost call that survived, and not at the slot of a call that
was abandoned. -/
def Allows (t : Trail) : Move → Prop
  | .enter call _ _ => call.slot < t.callerSlot ∧ ∀ n ∈ t, n.survives = false → n.call.slot ≠ call.slot
  | _ => True

instance (t : Trail) (move : Move) : Decidable (t.Allows move) := by
  unfold Allows
  cases move <;> infer_instance

/-- Moves one after the other, each of them allowed. -/
def Orderly : Trail → List Move → Prop
  | _, [] => True
  | t, move :: rest => t.Allows move ∧ Orderly (t.step move) rest

instance decidableOrderly : (t : Trail) → (moves : List Move) → Decidable (t.Orderly moves)
  | _, [] => .isTrue trivial
  | t, move :: rest => @instDecidableAnd _ _ _ (decidableOrderly (t.step move) rest)

def departures : Trail → List Move → List Departure
  | _, [] => []
  | t, move :: rest => t.departing move ++ departures (t.step move) rest

def turns (thread : Nat) : Trail → List Move → List Turn
  | _, [] => []
  | t, move :: rest => t.turnsIn thread move ++ turns thread (t.step move) rest

/-! ## Slots along a trail -/

/-- What lies on top of a call that survived has lower slots. -/
def Falling (t : Trail) : Prop :=
  t.Pairwise fun inner outer => outer.survives = true → inner.call.slot < outer.call.slot

variable {t : Trail} {slot : UInt64}

theorem map_call_abandon
    (count : Nat) (t : Trail) :
    (t.abandon count).map (·.call) = t.map (·.call) := by
  induction t generalizing count with
  | nil =>
      cases count <;> rfl
  | cons n rest ih =>
      cases count with
      | zero =>
          rfl
      | succ count =>
          rw [abandon]
          split <;> simp [ih]

/-- Nobody is revived. -/
theorem mem_abandon
    {count : Nat} {n : Noted}
    (h : n ∈ t.abandon count) :
    ∃ m ∈ t, m.call = n.call ∧ (n.survives = true → m.survives = true) := by
  induction t generalizing count with
  | nil =>
      cases count <;> cases h
  | cons first rest ih =>
      cases count with
      | zero =>
          exact ⟨n, h, rfl, id⟩
      | succ count =>
          rw [abandon] at h
          split at h
          · rcases List.mem_cons.1 h with rfl | h
            · exact ⟨first, List.mem_cons_self, rfl, fun hlive => by cases hlive⟩
            · obtain ⟨m, hm, hsame⟩ := ih h
              exact ⟨m, List.mem_cons_of_mem _ hm, hsame⟩
          · rcases List.mem_cons.1 h with rfl | h
            · exact ⟨n, List.mem_cons_self, rfl, id⟩
            · obtain ⟨m, hm, hsame⟩ := ih h
              exact ⟨m, List.mem_cons_of_mem _ hm, hsame⟩

namespace Falling

theorem callerSlot_le
    (h : t.Falling)
    {n : Noted}
    (hn : n ∈ t)
    (hlive : n.survives = true) :
    t.callerSlot ≤ n.call.slot := by
  induction h with
  | nil =>
      cases hn
  | @cons first rest hfirst _ ih =>
      rw [callerSlot]
      split
      · rcases List.mem_cons.1 hn with rfl | hn
        · exact UInt64.le_refl _
        · exact UInt64.le_of_lt (hfirst n hn hlive)
      · next hgone =>
          rcases List.mem_cons.1 hn with rfl | hn
          · exact absurd hlive hgone
          · exact ih hn

theorem abandon
    (h : t.Falling)
    (count : Nat) :
    (t.abandon count).Falling := by
  induction h generalizing count with
  | nil =>
      cases count <;> exact List.Pairwise.nil
  | @cons first rest hfirst hrest ih =>
      have hlater (count : Nat) (n : Noted) (hn : n ∈ Trail.abandon count rest)
          (hlive : n.survives = true) :
          first.call.slot < n.call.slot := by
        obtain ⟨m, hm, hsame, hlived⟩ := mem_abandon hn
        rw [← hsame]
        exact hfirst m hm (hlived hlive)
      cases count with
      | zero =>
          exact List.Pairwise.cons hfirst hrest
      | succ count =>
          rw [Trail.abandon]
          split
          · exact List.Pairwise.cons (hlater count) (ih count)
          · exact List.Pairwise.cons (hlater (count + 1)) (ih (count + 1))

/-- Below a call that survived, the calls whose slots do not lie above its own were abandoned. -/
theorem lostBelow_eq
    (h : ∀ n ∈ t, n.survives = true → slot < n.call.slot) :
    (t.takeWhile (lostBelow slot)).map (·.call) = ReturnStack.run slot (t.map (·.call)) ∧
      (t.dropWhile (lostBelow slot)).map (·.call) = ReturnStack.above slot (t.map (·.call)) := by
  induction t with
  | nil =>
      exact ⟨rfl, rfl⟩
  | cons n rest ih =>
      obtain ⟨htake, hdrop⟩ := ih fun m hm => h m (List.mem_cons_of_mem _ hm)
      by_cases hlt : slot < n.call.slot
      · have hnot : ¬ n.call.slot ≤ slot := UInt64.not_le.2 hlt
        obtain ⟨hrun, habove⟩ := ReturnStack.run_cons_of_lt hlt (rest.map (·.call))
        simp [lostBelow, hnot, hrun, habove]
      · have hle : n.call.slot ≤ slot := UInt64.not_lt.1 hlt
        have hlost : n.survives = false :=
          Bool.eq_false_iff.2 fun hlive => hlt (h n List.mem_cons_self hlive)
        obtain ⟨hrun, habove⟩ := ReturnStack.run_cons_of_le hle (rest.map (·.call))
        simp only [List.map_cons, hrun, habove]
        simp [lostBelow, hlost, hle, ← htake, ← hdrop]

/-- **Leaving** the innermost call that survived: the recorder gives the return address of the outermost
call that is closed, and has open what is noted afterwards. -/
theorem leave
    (h : t.Falling)
    {d : Departure} {t' : Trail}
    (hleave : t.leave? = some (d, t'))
    (timestamp : UInt64) :
    t'.Falling ∧
      (ReturnStack.exit d.call.slot timestamp (t.map (·.call))).1 = t'.map (·.call) ∧
      (ReturnStack.exit d.call.slot timestamp (t.map (·.call))).2.2 = d.answer := by
  -- The calls on top of the one that is left are collected while it is looked for.
  suffices hinside : ∀ inside : ReturnStack,
      (∀ c ∈ inside, ∀ n ∈ t, n.survives = true → c.slot < n.call.slot) →
      t'.Falling ∧
        (ReturnStack.exit d.call.slot timestamp (inside ++ t.map (·.call))).1 = t'.map (·.call) ∧
        (ReturnStack.exit d.call.slot timestamp (inside ++ t.map (·.call))).2.2 = d.answer from
    hinside [] fun _ hc => by cases hc
  induction h with
  | nil =>
      cases hleave
  | @cons n rest hn hrest ih =>
      intro inside hinside
      rw [leave?] at hleave
      split at hleave
      · next hlive =>
          cases hleave
          obtain ⟨hburied, hleft⟩ := lostBelow_eq hn
          obtain ⟨hstack, haddress⟩ := ReturnStack.exit_append timestamp
            (fun c hc => hinside c hc n List.mem_cons_self hlive) (rest.map (·.call))
          refine ⟨hrest.sublist (List.dropWhile_sublist _), ?_, ?_⟩
          · rw [List.map_cons, hstack, hleft]
          · rw [List.map_cons, haddress, Departure.answer, hburied]
      · next hgone =>
          have hmore := ih hleave (inside ++ [n.call]) (by
            intro c hc m hm hlive
            rcases List.mem_append.1 hc with hc | hc
            · exact hinside c hc m (List.mem_cons_of_mem _ hm) hlive
            · rw [List.mem_singleton.1 hc]
              exact hn m hm hlive)
          simpa using hmore

end Falling

/-! ## A thread by itself -/

/-- The recorder has open what is noted. -/
structure Mirrors (t : Trail) (p : Solo) : Prop where
  falling : t.Falling
  returns : p.returns = t.map (·.call)

theorem Allows.topSlot_ne
    {call : OpenCall} {timestamp callee : UInt64}
    (h : t.Allows (.enter call timestamp callee)) :
    ReturnStack.topSlot (t.map (·.call)) ≠ call.slot := by
  obtain ⟨hbelow, hunlike⟩ := h
  cases t with
  | nil =>
      exact (UInt64.ne_of_lt hbelow).symm
  | cons n rest =>
      rw [callerSlot] at hbelow
      split at hbelow
      · exact (UInt64.ne_of_lt hbelow).symm
      · next hgone =>
          exact hunlike n List.mem_cons_self (Bool.eq_false_iff.2 hgone)

namespace Mirrors

variable {p : Solo}

theorem start : Mirrors [] .start :=
  ⟨List.Pairwise.nil, rfl⟩

/-- **A move** that is allowed: the exit, if there is one, gives the return address of the outermost call
that it closes. -/
theorem step
    (h : t.Mirrors p)
    (thread : Nat) {move : Move}
    (hallowed : t.Allows move) :
    (t.step move).Mirrors (p.run (t.turnsIn thread move)) ∧
      (p.run (t.turnsIn thread move)).answers =
        p.answers ++ (t.departing move).map Departure.answer := by
  obtain ⟨returns, recorded, answers⟩ := p
  obtain ⟨hfalling, rfl⟩ := h
  cases move with
  | enter call timestamp callee =>
      have hbelow : ∀ n ∈ t, n.survives = true → call.slot < n.call.slot :=
        fun n hn hlive => UInt64.lt_of_lt_of_le hallowed.1 (hfalling.callerSlot_le hn hlive)
      refine ⟨⟨List.Pairwise.cons hbelow hfalling, ?_⟩, ?_⟩
      · simp [turnsIn, Solo.run, Solo.step, ReturnStack.enter, hallowed.topSlot_ne, Trail.step]
      · simp [turnsIn, Solo.run, Solo.step, departing]
  | abandon count =>
      refine ⟨⟨hfalling.abandon count, ?_⟩, ?_⟩
      · exact (map_call_abandon count t).symm
      · simp [turnsIn, Solo.run, departing]
  | leave timestamp =>
      cases hleave : t.leave? with
      | none =>
          refine ⟨?_, ?_⟩
          · simpa [turnsIn, departing, hleave, Solo.run, Trail.step] using ⟨hfalling, rfl⟩
          · simp [turnsIn, departing, hleave, Solo.run]
      | some left =>
          obtain ⟨d, t'⟩ := left
          obtain ⟨hfalling', hstack, haddress⟩ := hfalling.leave hleave timestamp
          refine ⟨⟨?_, ?_⟩, ?_⟩
          · simpa [Trail.step, hleave] using hfalling'
          · simpa [turnsIn, departing, hleave, Solo.run, Solo.step, Trail.step] using hstack
          · simpa [turnsIn, departing, hleave, Solo.run, Solo.step] using haddress

theorem run
    (h : t.Mirrors p)
    {thread : Nat} {moves : List Move}
    (horderly : t.Orderly moves) :
    (p.run (t.turns thread moves)).answers =
      p.answers ++ (t.departures moves).map Departure.answer := by
  induction moves generalizing t p with
  | nil =>
      exact (List.append_nil _).symm
  | cons move rest ih =>
      obtain ⟨hmirrors, hanswers⟩ := h.step thread horderly.1
      rw [turns, Solo.run_append, ih hmirrors horderly.2, hanswers, departures, List.map_append,
        List.append_assoc]

end Mirrors

/-- What a thread does to the recorder are calls of its own. -/
theorem caller?_of_mem
    {thread : Nat} {moves : List Move} {turn : Turn}
    (h : turn ∈ t.turns thread moves) :
    turn.caller? = some thread := by
  induction moves generalizing t with
  | nil =>
      cases h
  | cons move rest ih =>
      rcases List.mem_append.1 h with h | h
      · cases move with
        | enter call timestamp callee =>
            rw [List.mem_singleton.1 h]
            rfl
        | abandon count =>
            cases h
        | leave timestamp =>
            obtain ⟨d, -, rfl⟩ := List.mem_map.1 h
            rfl
      · exact ih h

end Trail

/-! ## A thread among others -/

namespace Interleaving

/-- **What exits give when calls are abandoned.**  A thread makes calls, each below the innermost one that
survived and not at the slot of an abandoned one, abandons calls and leaves those that survived, while
drains, pollers and other threads take their steps; there is such an order for any calls and any limit.
However that is done, every exit gives the return address of the outermost of the abandoned calls that
lie right below its own call with slots not above it, and its own return address if there are none.  So
it gives the return address that its slot held exactly if no abandoned call is buried there, or the
outermost one happens to have the same return address. -/
theorem surviving_calls_return
    (limit : Nat) (sinks : Nat → Nat) (thread : Nat)
    {moves : List Move}
    (horderly : Trail.Orderly [] moves) :
    let s₀ := start limit sinks
    let program := Trail.turns thread [] moves
    let departures := Trail.departures [] moves
    (∃ turns, s₀.callsOf thread turns = program) ∧
    ∀ turns, s₀.callsOf thread turns = program →
      s₀.answersOf thread turns = departures.map Departure.answer ∧
      ∀ (k : Nat) (d : Departure), departures[k]? = some d →
        ((s₀.answersOf thread turns)[k]? = some d.call.returnAddress ↔
          d.buried = [] ∨
            ∃ outermost, d.buried.getLast? = some outermost ∧
              outermost.returnAddress = d.call.returnAddress) := by
  intro s₀ program departures
  obtain ⟨turns₀, hturns₀, -⟩ :=
    exists_turns limit sinks thread fun turn (hmem : turn ∈ program) => Trail.caller?_of_mem hmem
  refine ⟨⟨turns₀, hturns₀⟩, ?_⟩
  intro turns hprogram
  obtain ⟨-, hanswers⟩ := follows_run limit sinks turns thread
  have hall : s₀.answersOf thread turns = departures.map Departure.answer := by
    rw [hanswers, hprogram]
    exact Trail.Mirrors.start.run horderly
  refine ⟨hall, ?_⟩
  intro k d hd
  have hanswer : (s₀.answersOf thread turns)[k]? = some d.answer := by
    rw [hall, List.getElem?_map, hd]
    rfl
  rw [hanswer, Option.some.injEq, Departure.answer, List.getLastD_eq_getLast?]
  cases hlast : d.buried.getLast? with
  | none =>
      simp [List.getLast?_eq_none_iff.1 hlast]
  | some outermost =>
      have hburied : d.buried ≠ [] := by
        intro hnil
        rw [hnil] at hlast
        cases hlast
      simp [hburied]

/-- Calls are abandoned twice, the second of them at a higher slot; further calls are made below it, and
the outermost call closes all that was abandoned. -/
theorem surviving_calls_return_below :
    let moves : List Move :=
      [.enter ⟨300, 1000⟩ 1 5, .enter ⟨200, 2000⟩ 2 6, .enter ⟨100, 3000⟩ 3 7, .abandon 2,
        .enter ⟨250, 4000⟩ 4 8, .abandon 1, .enter ⟨150, 5000⟩ 5 9, .leave 6, .leave 7]
    let turns : List Turn :=
      [.enter 7 300 1000 1 5, .append 7, .enter 7 200 2000 2 6, .append 7, .enter 7 100 3000 3 7,
        .append 7, .enter 7 250 4000 4 8, .append 7, .enter 7 150 5000 5 9, .append 7, .exit 7 150 6,
        .append 7, .exit 7 300 7]
    Trail.Orderly [] moves ∧
      (start 0 id).callsOf 7 turns = Trail.turns 7 [] moves ∧
      (Trail.departures [] moves).map (fun d => (d.call.returnAddress, d.buried)) =
        [(5000, []), (1000, [])] ∧
      (start 0 id).answersOf 7 turns = [5000, 1000] := by
  intro moves turns
  have horderly : Trail.Orderly [] moves := by decide
  have hcalls : (start 0 id).callsOf 7 turns = Trail.turns 7 [] moves := by decide +kernel
  have hdepartures : Trail.departures [] moves = [⟨⟨150, 5000⟩, []⟩, ⟨⟨300, 1000⟩, []⟩] := by decide
  obtain ⟨hanswers, -⟩ := (surviving_calls_return 0 id 7 horderly).2 turns hcalls
  refine ⟨horderly, hcalls, by rw [hdepartures]; rfl, ?_⟩
  rw [hanswers, hdepartures]
  rfl

/-- A call is abandoned, and the next one is made at a higher slot, so that it lies on top of it: its exit
gives the return address of the abandoned call. -/
theorem abandoned_call_misleads_exit :
    let moves : List Move :=
      [.enter ⟨300, 4128⟩ 1 256, .enter ⟨100, 4096⟩ 2 512, .abandon 1, .enter ⟨200, 4112⟩ 3 768,
        .leave 4, .leave 5]
    let turns : List Turn :=
      [.enter 7 300 4128 1 256, .append 7, .enter 7 100 4096 2 512, .append 7,
        .enter 7 200 4112 3 768, .append 7, .exit 7 200 4, .append 7, .append 7, .exit 7 300 5]
    Trail.Orderly [] moves ∧
      (start 0 id).callsOf 7 turns = Trail.turns 7 [] moves ∧
      (Trail.departures [] moves).map (·.call.returnAddress) = [4112, 4128] ∧
      (start 0 id).answersOf 7 turns = [4096, 4128] := by
  intro moves turns
  exact ⟨by decide, by decide +kernel, by decide, by decide +kernel⟩

end Interleaving

end CallProfiler.Recording
