import CallProfiler.Profile.Hotspot
import CallProfiler.Proofs.Replay.Threads
import Mathlib.Logic.Relation

/-!
# The order of batches of different threads

Threads are drained in an arbitrary order, so batches of different threads reach the analysis in an
arbitrary order as well, with the statistics cleared now and then.  The analysis keeps its threads
apart and in ascending order, and therefore does not depend on it.

**Main statements.**
* `Ascending.ext`: threads in ascending order are determined by the profile of each.
* `perform_comm`: two batches of different threads can change places.
* `lookup_run_empty`: the profile of a thread comes from its own batches and the clearing.
* `run_exchanged`: everything that an analysis tells stays the same, whatever batches of different
  threads change places.
-/

namespace CallProfiler.Profile

namespace Analysis

/-- What an analysis is given. -/
inductive Feed where
  | batch (thread : UInt64) (events : List Event)
  | clear
  deriving DecidableEq

/-- The feed has a part in the profile of the thread. -/
def Feed.concerns (thread : UInt64) : Feed → Bool
  | batch id _ => id = thread
  | clear => true

/-- The feed makes the thread known. -/
def Feed.introduces (thread : UInt64) : Feed → Bool
  | batch id _ => id = thread
  | clear => false

def perform (a : Analysis) : Feed → Analysis
  | .batch thread events => a.accept thread events
  | .clear => a.clear

def run (a : Analysis) (feeds : List Feed) : Analysis := feeds.foldl perform a

/-- Two batches of different threads, one right after the other, have changed places. -/
inductive Exchanged : List Feed → List Feed → Prop
  | intro {thread id : UInt64} (before : List Feed) (events more : List Event) (after : List Feed) :
      thread ≠ id →
      Exchanged (before ++ .batch thread events :: .batch id more :: after)
        (before ++ .batch id more :: .batch thread events :: after)

end Analysis

/-- What becomes of the profile of a thread that is used for that thread alone. -/
def ThreadProfile.perform (p : ThreadProfile) : Analysis.Feed → ThreadProfile
  | .batch _ events => p.replay events
  | .clear => { p with tree := .empty }

namespace Analysis

/-! ## Threads in ascending order -/

section Threads

variable {l l' : List (UInt64 × ThreadProfile)} {id : UInt64}

theorem Ascending.map
    (h : Ascending l)
    (f : ThreadProfile → ThreadProfile) :
    Ascending (l.map fun (id, p) => (id, f p)) :=
  List.pairwise_map.2 h

theorem lookup_map
    (f : ThreadProfile → ThreadProfile) :
    (l.map fun (id, p) => (id, f p)).lookup id = (l.lookup id).map f := by
  induction l with
  | nil =>
      rfl
  | cons q rest ih =>
      obtain ⟨key, p⟩ := q
      by_cases hkey : id = key
      · simp [hkey]
      · rw [List.map_cons, lookup_cons_of_ne hkey, lookup_cons_of_ne hkey]
        exact ih

/-- The first thread is below all others. -/
theorem Ascending.lookup_head
    {q : UInt64 × ThreadProfile}
    (h : Ascending (q :: l)) :
    l.lookup q.1 = none :=
  lookup_eq_none (List.pairwise_cons.1 h).1

/-- A thread below the first one is not among them. -/
theorem Ascending.lookup_below
    {q : UInt64 × ThreadProfile}
    (h : Ascending (q :: l))
    (hid : id < q.1) :
    (q :: l).lookup id = none := by
  apply lookup_eq_none
  intro p hp
  rcases List.mem_cons.1 hp with rfl | hp
  · exact hid
  · exact UInt64.lt_trans hid ((List.pairwise_cons.1 h).1 p hp)

/-- **Threads in ascending order** are determined by the profile of each. -/
theorem Ascending.ext
    (h : Ascending l)
    (h' : Ascending l')
    (hsame : ∀ id, l.lookup id = l'.lookup id) :
    l = l' := by
  induction l generalizing l' with
  | nil =>
      cases l' with
      | nil =>
          rfl
      | cons q' rest' =>
          have hhead := hsame q'.1
          rw [List.lookup_cons_self] at hhead
          cases hhead
  | cons q rest ih =>
      cases l' with
      | nil =>
          have hhead := hsame q.1
          rw [List.lookup_cons_self] at hhead
          cases hhead
      | cons q' rest' =>
          obtain ⟨key, p⟩ := q
          obtain ⟨key', p'⟩ := q'
          have hkey : key = key' := by
            refine UInt64.le_antisymm (UInt64.not_lt.1 fun hlt => ?_) (UInt64.not_lt.1 fun hlt => ?_)
            · have hnone := (hsame key').symm.trans (h.lookup_below hlt)
              rw [List.lookup_cons_self] at hnone
              cases hnone
            · have hnone := (hsame key).trans (h'.lookup_below hlt)
              rw [List.lookup_cons_self] at hnone
              cases hnone
          subst hkey
          have hp : p = p' := by
            simpa using hsame key
          have hrest : rest = rest' := by
            refine ih (List.pairwise_cons.1 h).2 (List.pairwise_cons.1 h').2 ?_
            intro id
            by_cases hid : id = key
            · rw [hid, h.lookup_head, h'.lookup_head]
            · have hlater := hsame id
              rw [lookup_cons_of_ne hid, lookup_cons_of_ne hid] at hlater
              exact hlater
          rw [hp, hrest]

end Threads

/-! ## One feed -/

variable {a : Analysis} {thread id : UInt64}

theorem Ascending.perform
    (h : Ascending a.threads)
    (feed : Feed) :
    Ascending (a.perform feed).threads := by
  cases feed with
  | batch thread events => exact h.updateThread _ _ _
  | clear => exact h.map fun p => { p with tree := .empty }

theorem lookup_accept
    (h : Ascending a.threads)
    (events : List Event) :
    (a.accept thread events).threads.lookup id =
      if id = thread then some ((a.profile thread).replay events) else a.threads.lookup id :=
  lookup_updateThread h

theorem lookup_clear
    (a : Analysis) :
    a.clear.threads.lookup id = (a.threads.lookup id).map (·.perform .clear) :=
  lookup_map fun p => { p with tree := .empty }

/-- **Batches of different threads** can change places. -/
theorem perform_comm
    (h : Ascending a.threads)
    (hne : thread ≠ id)
    (events more : List Event) :
    (a.accept thread events).accept id more = (a.accept id more).accept thread events := by
  have hthread : Ascending (a.accept thread events).threads := h.perform (.batch thread events)
  have hid : Ascending (a.accept id more).threads := h.perform (.batch id more)
  have hthreads : ((a.accept thread events).accept id more).threads =
      ((a.accept id more).accept thread events).threads := by
    refine (hthread.perform (.batch id more)).ext (hid.perform (.batch thread events)) ?_
    intro key
    change ((a.accept thread events).accept id more).threads.lookup key =
      ((a.accept id more).accept thread events).threads.lookup key
    rw [lookup_accept hthread, lookup_accept hid, lookup_accept h,
      lookup_accept h, profile_accept h, profile_accept h, if_neg hne, if_neg hne.symm]
    by_cases hkey : key = thread
    · rw [hkey, if_neg hne, if_pos rfl, if_pos rfl]
    · rw [if_neg hkey, if_neg hkey]
  have haccepted : ((a.accept thread events).accept id more).accepted =
      ((a.accept id more).accept thread events).accepted := by
    show ((a.accepted + events.length) % 2 ^ 64 + more.length) % 2 ^ 64 =
      ((a.accepted + more.length) % 2 ^ 64 + events.length) % 2 ^ 64
    rw [Nat.mod_add_mod, Nat.mod_add_mod, Nat.add_right_comm]
  exact congrArg₂ (Analysis.mk a.overhead) hthreads haccepted

/-! ## Runs -/

theorem run_append
    (a : Analysis) (before after : List Feed) :
    a.run (before ++ after) = (a.run before).run after :=
  List.foldl_append

theorem Ascending.run
    (feeds : List Feed)
    (h : Ascending a.threads) :
    Ascending (a.run feeds).threads := by
  induction feeds generalizing a with
  | nil => exact h
  | cons feed rest ih => exact ih (h.perform feed)

theorem Exchanged.run_eq
    {feeds feeds' : List Feed}
    (hexchanged : Exchanged feeds feeds')
    (h : Ascending a.threads) :
    a.run feeds = a.run feeds' := by
  obtain ⟨before, events, more, after, hne⟩ := hexchanged
  rw [run_append, run_append]
  exact congrArg (·.run after) (perform_comm (h.run before) hne events more)

theorem profile_perform
    (h : Ascending a.threads)
    (feed : Feed) :
    (a.perform feed).profile thread =
      if feed.concerns thread then (a.profile thread).perform feed else a.profile thread := by
  cases feed with
  | batch id events =>
      change (a.accept id events).profile thread = _
      rw [profile_accept h]
      by_cases hid : id = thread
      · simp [Feed.concerns, ThreadProfile.perform, hid]
      · simp [Feed.concerns, hid, Ne.symm hid]
  | clear =>
      change (a.clear.threads.lookup thread).getD ⟨.empty a.overhead, .empty⟩ = _
      rw [lookup_clear, profile]
      -- a thread that is not known yet has nothing to clear
      cases a.threads.lookup thread <;> rfl

/-- The profile of a thread is what its own batches and the clearing make of it. -/
theorem profile_run
    (thread : UInt64) (feeds : List Feed)
    (h : Ascending a.threads) :
    (a.run feeds).profile thread =
      (feeds.filter (·.concerns thread)).foldl ThreadProfile.perform (a.profile thread) := by
  induction feeds generalizing a with
  | nil =>
      rfl
  | cons feed rest ih =>
      refine (ih (h.perform feed)).trans ?_
      rw [profile_perform h, List.filter_cons]
      split <;> rfl

theorem isSome_lookup_perform
    (h : Ascending a.threads)
    (feed : Feed) :
    ((a.perform feed).threads.lookup thread).isSome =
      (feed.introduces thread || (a.threads.lookup thread).isSome) := by
  cases feed with
  | batch id events =>
      change ((a.accept id events).threads.lookup thread).isSome = _
      rw [lookup_accept h]
      by_cases hid : id = thread
      · simp [Feed.introduces, hid]
      · simp [Feed.introduces, hid, Ne.symm hid]
  | clear =>
      change (a.clear.threads.lookup thread).isSome = _
      rw [lookup_clear, Option.isSome_map]
      rfl

/-- The threads are those that batches came from. -/
theorem isSome_lookup_run
    (thread : UInt64) (feeds : List Feed)
    (h : Ascending a.threads) :
    ((a.run feeds).threads.lookup thread).isSome =
      (feeds.any (·.introduces thread) || (a.threads.lookup thread).isSome) := by
  induction feeds generalizing a with
  | nil =>
      rfl
  | cons feed rest ih =>
      refine (ih (h.perform feed)).trans ?_
      rw [isSome_lookup_perform h, List.any_cons, ← Bool.or_assoc,
        Bool.or_comm (rest.any fun x => x.introduces thread)]

/-- **A thread that was used alone**: what is known of it comes from its own batches and the clearing,
in their order. -/
theorem lookup_run_empty
    (o : Overhead) (feeds : List Feed) (thread : UInt64) :
    ((empty o).run feeds).threads.lookup thread =
      if feeds.any (·.introduces thread) then
        some ((feeds.filter (·.concerns thread)).foldl ThreadProfile.perform ⟨.empty o, .empty⟩)
      else none := by
  have hempty : Ascending (empty o).threads := List.Pairwise.nil
  have hknown := isSome_lookup_run thread feeds hempty
  have hprofile := profile_run thread feeds hempty
  cases hlookup : ((empty o).run feeds).threads.lookup thread with
  | none =>
      have hunknown : feeds.any (·.introduces thread) = false := by
        rw [hlookup] at hknown
        simpa [empty] using hknown.symm
      rw [hunknown]
      rfl
  | some p =>
      have hintroduced : feeds.any (·.introduces thread) = true := by
        rw [hlookup] at hknown
        simpa [empty] using hknown.symm
      rw [hintroduced, if_pos rfl]
      rw [profile, hlookup] at hprofile
      exact congrArg some hprofile

/-- **The order of batches of different threads does not matter.**  Two new analyses with the same
overhead, given the same batches and cleared at the same times, except that neighbouring batches of
different threads have changed places any number of times, end up the same: the same threads, with the
same trees, node by node, and the same open calls, the same tree of all threads, the same hotspots and
number of events.  What is known of a thread is what its own batches and the clearing make of a call
stack and a tree that are used for that thread alone. -/
theorem run_exchanged
    (o : Overhead) {feeds feeds' : List Feed}
    (hexchanged : Relation.ReflTransGen Exchanged feeds feeds') :
    let a := (empty o).run feeds
    let a' := (empty o).run feeds'
    a = a' ∧ a.threadIds = a'.threadIds ∧ (∀ thread, a.tree? thread = a'.tree? thread) ∧
      a.merged = a'.merged ∧ Hotspot.ofTree a.merged = Hotspot.ofTree a'.merged ∧
      a.accepted = a'.accepted ∧
      ∀ thread, a.threads.lookup thread =
        if feeds.any (·.introduces thread) then
          some ((feeds.filter (·.concerns thread)).foldl ThreadProfile.perform ⟨.empty o, .empty⟩)
        else none := by
  intro a a'
  have hsame : a = a' := by
    induction hexchanged with
    | refl => rfl
    | tail _ hlast ih => exact ih.trans (hlast.run_eq List.Pairwise.nil)
  have halone := lookup_run_empty o feeds
  rw [← hsame]
  exact ⟨rfl, rfl, fun _ => rfl, rfl, rfl, rfl, halone⟩

/-- Batches of three threads, a clear between them, and a call that is open over it. -/
theorem run_exchanged_cleared :
    let enter (timestamp callee : UInt64) : Event := ⟨timestamp, callee⟩
    let feeds : List Feed :=
      [.batch 2 [enter 5 0xa], .batch 1 [enter 7 0xb, enter 9 0], .clear, .batch 3 [enter 11 0xc],
        .batch 2 [enter 20 0]]
    let feeds' : List Feed :=
      [.batch 1 [enter 7 0xb, enter 9 0], .batch 2 [enter 5 0xa], .clear, .batch 2 [enter 20 0],
        .batch 3 [enter 11 0xc]]
    let a := (empty ⟨1, 2⟩).run feeds
    let a' := (empty ⟨1, 2⟩).run feeds'
    Relation.ReflTransGen Exchanged feeds feeds' ∧
      a = a' ∧ a.threadIds = a'.threadIds ∧ (∀ thread, a.tree? thread = a'.tree? thread) ∧
      a.merged = a'.merged ∧ Hotspot.ofTree a.merged = Hotspot.ofTree a'.merged ∧
      a.accepted = a'.accepted ∧
      ∀ thread, a.threads.lookup thread =
        if feeds.any (·.introduces thread) then
          some ((feeds.filter (·.concerns thread)).foldl ThreadProfile.perform
            ⟨.empty ⟨1, 2⟩, .empty⟩)
        else none := by
  intro enter feeds feeds' a a'
  have hfirst : Exchanged feeds
      [.batch 1 [enter 7 0xb, enter 9 0], .batch 2 [enter 5 0xa], .clear, .batch 3 [enter 11 0xc],
        .batch 2 [enter 20 0]] :=
    .intro [] _ _ _ (by decide)
  have hsecond : Exchanged
      [.batch 1 [enter 7 0xb, enter 9 0], .batch 2 [enter 5 0xa], .clear, .batch 3 [enter 11 0xc],
        .batch 2 [enter 20 0]] feeds' :=
    .intro [.batch 1 [enter 7 0xb, enter 9 0], .batch 2 [enter 5 0xa], .clear] _ _ _ (by decide)
  have hexchanged := (Relation.ReflTransGen.single hfirst).tail hsecond
  exact ⟨hexchanged, run_exchanged ⟨1, 2⟩ hexchanged⟩

end Analysis

end CallProfiler.Profile
