import CallProfiler.Profile.CallStack
import CallProfiler.Proofs.Replay.Folding
import CallProfiler.Proofs.Replay.History

/-!
# What the calls of a history amount to

The statistics at a path of the call tree, said as sums and maxima over the completed calls with that
path.  A call's own time is its duration less what recording it took and less the time of the calls
it made; its whole time is its duration less what recording took at any depth inside it.  All of these
are held in machine words: a time that leaves its bounds wraps around, and levels beyond the greatest are
not told apart.  Where no number leaves its bounds, the sums are the plain ones.

**Main statements.**
* `summarize_perm`: the order of calls does not matter.
* `summarize_eq_tally`: what is held is the plain sums, if they are within bounds.
* `History.calls_leave`: leaving a call adds that one call to the completed ones.
-/

namespace CallProfiler.Profile

namespace Call

def entered : Call → Enter
  | .ended entered _ _ => entered

def left : Call → UInt64
  | .ended _ left _ => left

/-- The calls that a call made itself. -/
def made : Call → List Call
  | .ended _ _ made => made

/-- Ticks from entering to leaving. -/
def duration (c : Call) : Int := elapsed c.entered.1.timestamp c.left

/-- The number of calls that a call consists of: itself and those made in it at any depth. -/
def count : Call → Nat
  | .ended _ _ made => 1 + (made.map count).sum

/-- The number of calls made in a call at any depth. -/
def nestedCount (c : Call) : Nat := (c.made.map count).sum

/-- The time of a call without that of the calls it made. -/
def ownTime (o : Overhead) (c : Call) : Int :=
  c.duration - o.inner - (c.made.map fun d => d.duration + o.outer).sum

/-- The time of a call without what recording the calls in it took. -/
def wholeTime (o : Overhead) (c : Call) : Int :=
  c.duration - o.inner - (o.inner + o.outer) * c.nestedCount

/-- The time of a call without that of the calls it made, as it is held. -/
def exclusive (o : Overhead) (c : Call) : Int := wrap (c.ownTime o)

/-- The time of a call without what recording the calls in it took, as it is held. -/
def inclusive (o : Overhead) (c : Call) : Int := wrap (c.wholeTime o)

end Call

/-- A completed call with its chain of callees: those of the calls around it, the outermost first,
and its own. -/
structure PlacedCall where
  chain : List UInt64
  call : Call

/-- The recursion level of a call, as far as levels are told apart. -/
def PlacedCall.level (p : PlacedCall) : Nat := min (recursionLevel p.chain) deepestLevel

/-- A call and those made in it at any depth, where `around` are the callees around it. -/
def Call.placed (around : List UInt64) : Call → List PlacedCall
  | .ended entered left made =>
    ⟨around ++ [entered.1.callee], .ended entered left made⟩ ::
      made.flatMap fun c => c.placed (around ++ [entered.1.callee])

/-- The statistics that completed calls amount to, as they are held. -/
def summarize (o : Overhead) (calls : List PlacedCall) : Statistics where
  timesCalled := calls.length % 2 ^ 64
  maxReentrance := (calls.map (·.level)).foldr max 0
  inclusiveTime := wrap ((calls.filter (·.level = 0)).map (·.call.wholeTime o)).sum
  exclusiveTime := wrap (calls.map (·.call.ownTime o)).sum
  maxCallTime := (calls.map (·.call.inclusive o)).foldr max 0

/-- The statistics that completed calls amount to, in numbers without bounds. -/
def tally (o : Overhead) (calls : List PlacedCall) : Statistics where
  timesCalled := calls.length
  maxReentrance := (calls.map (recursionLevel ·.chain)).foldr max 0
  inclusiveTime := ((calls.filter (recursionLevel ·.chain = 0)).map (·.call.wholeTime o)).sum
  exclusiveTime := (calls.map (·.call.ownTime o)).sum
  maxCallTime := (calls.map (·.call.wholeTime o)).foldr max 0

/-- No number leaves its bounds when calls are summed up. -/
structure WithinBounds (o : Overhead) (calls : List PlacedCall) : Prop where
  count : calls.length < 2 ^ 64
  level : ∀ p ∈ calls, recursionLevel p.chain ≤ deepestLevel
  whole : ∀ p ∈ calls, Fits (p.call.wholeTime o)
  inclusive : Fits (tally o calls).inclusiveTime
  exclusive : Fits (tally o calls).exclusiveTime

def Episode.calls : Episode → List PlacedCall
  | .call c => c.placed []
  | .stray _ => []

namespace OngoingCall

def callee (c : OngoingCall) : UInt64 := c.entered.1.callee

/-- The callees of open calls, the outermost first. -/
def chain (calls : List OngoingCall) : List UInt64 := (calls.map callee).reverse

/-- The completed calls made in open calls at any depth. -/
def completed : List OngoingCall → List PlacedCall
  | [] => []
  | c :: below => completed below ++ c.made.flatMap (·.placed (chain (c :: below)))

/-- The chains of open calls. -/
def chains : List OngoingCall → List (List UInt64)
  | [] => []
  | c :: below => chain (c :: below) :: chains below

/-- The time that the calls made take away from an open call. -/
def madeTime (o : Overhead) (c : OngoingCall) : Int := (c.made.map fun d => d.duration + o.outer).sum

/-- The number of completed calls made in an open call at any depth. -/
def madeCount (c : OngoingCall) : Nat := (c.made.map Call.count).sum

end OngoingCall

namespace History

/-- The completed calls. -/
def calls (h : History) : List PlacedCall :=
  h.past.flatMap Episode.calls ++ OngoingCall.completed h.ongoing

/-- The paths of all calls that were entered. -/
def paths (h : History) : List (List UInt64) :=
  (h.calls.map (·.chain) ++ OngoingCall.chains h.ongoing).map shorten

/-- The completed calls with a path. -/
def callsAt (h : History) (path : List UInt64) : List PlacedCall :=
  h.calls.filter fun p => shorten p.chain = path

/-- The statistics of the completed calls with a path. -/
def statisticsAt (o : Overhead) (h : History) (path : List UInt64) : Statistics :=
  summarize o (h.callsAt path)

end History

/-! ## Summing up -/

namespace Statistics

/-- Which of two calls is accounted first does not matter. -/
theorem addCall_comm
    (s : Statistics) (level level' : Nat)
    (inclusive inclusive' exclusive exclusive' : Int) :
    (s.addCall level inclusive exclusive).addCall level' inclusive' exclusive' =
      (s.addCall level' inclusive' exclusive').addCall level inclusive exclusive := by
  simp only [addCall, mk.injEq, wrap_wrap_add, Int.add_right_comm _ exclusive]
  refine ⟨trivial, by omega, ?_, trivial, by omega⟩
  split
  · split
    · rw [wrap_wrap_add, wrap_wrap_add, Int.add_right_comm]
    · rfl
  · rfl

end Statistics

theorem summarize_nil
    (o : Overhead) :
    summarize o [] = .zero := by
  rfl

theorem summarize_cons
    (o : Overhead) (p : PlacedCall)
    (calls : List PlacedCall) :
    summarize o (p :: calls) =
      (summarize o calls).addCall p.level (p.call.inclusive o) (p.call.exclusive o) := by
  simp only [summarize, Statistics.addCall, Call.inclusive, Call.exclusive, Statistics.mk.injEq,
    List.map_cons, List.length_cons, List.foldr_cons, List.sum_cons, List.filter_cons, decide_eq_true_eq,
    wrap_wrap_add, wrap_add_wrap]
  refine ⟨by omega, Nat.max_comm _ _, ?_, by rw [Int.add_comm], Int.max_comm _ _⟩
  split
  · rw [List.map_cons, List.sum_cons, Int.add_comm]
  · rfl

theorem level_eq_zero_iff
    (p : PlacedCall) :
    p.level = 0 ↔ recursionLevel p.chain = 0 := by
  have hdeepest : deepestLevel ≠ 0 := by decide
  unfold PlacedCall.level
  omega

/-- **What is held** is the plain sums where no number leaves its bounds. -/
theorem summarize_eq_tally
    {o : Overhead} {calls : List PlacedCall}
    (h : WithinBounds o calls) :
    summarize o calls = tally o calls := by
  have hlevels : calls.map (·.level) = calls.map (recursionLevel ·.chain) :=
    List.map_congr_left fun p hp => Nat.min_eq_left (h.level p hp)
  have hwhole : calls.map (·.call.inclusive o) = calls.map (·.call.wholeTime o) :=
    List.map_congr_left fun p hp => wrap_of_fits (h.whole p hp)
  have hinclusive := wrap_of_fits h.inclusive
  have hexclusive := wrap_of_fits h.exclusive
  simp only [tally] at hinclusive hexclusive
  simp only [summarize, tally, hlevels, hwhole, level_eq_zero_iff, hinclusive, hexclusive,
    Nat.mod_eq_of_lt h.count]

/-- **The order of calls does not matter.** -/
theorem summarize_perm
    (o : Overhead)
    {calls calls' : List PlacedCall}
    (h : calls.Perm calls') :
    summarize o calls = summarize o calls' := by
  induction h with
  | nil =>
      rfl
  | cons p _ ih =>
      rw [summarize_cons, summarize_cons, ih]
  | swap p q calls =>
      simp only [summarize_cons]
      exact Statistics.addCall_comm _ _ _ _ _ _ _
  | trans _ _ ih ih' =>
      exact ih.trans ih'

/-! ## Entering and leaving -/

namespace OngoingCall

theorem chain_cons
    (c : OngoingCall) (below : List OngoingCall) :
    chain (c :: below) = chain below ++ [c.callee] := by
  simp [chain]

/-- The time that a call takes away from the open call that made it. -/
theorem madeTime_append
    (o : Overhead) (c : OngoingCall) (d : Call) :
    madeTime o { c with made := c.made ++ [d] } = madeTime o c + (d.duration + o.outer) := by
  simp [madeTime]

theorem madeCount_append
    (c : OngoingCall) (entered : Enter)
    (left : UInt64) (made : List Call) :
    madeCount { c with made := c.made ++ [.ended entered left made] } =
      madeCount c + (1 + madeCount ⟨entered, made⟩) := by
  simp [madeCount, Call.count]

end OngoingCall

namespace History

open OngoingCall

theorem calls_enter
    (h : History) (entered : Enter) :
    (h.enter entered).calls = h.calls := by
  simp [calls, enter, completed]

/-- Entering a call adds the one path. -/
theorem mem_paths_enter
    (h : History) (entered : Enter)
    (path : List UInt64) :
    path ∈ (h.enter entered).paths ↔
      path = shorten (chain h.ongoing ++ [entered.1.callee]) ∨ path ∈ h.paths := by
  have hchain : chain (⟨entered, []⟩ :: h.ongoing) = chain h.ongoing ++ [entered.1.callee] := by
    rw [chain_cons]
    rfl
  have hchains : chains (h.enter entered).ongoing =
      chain (⟨entered, []⟩ :: h.ongoing) :: chains h.ongoing := by
    rfl
  simp only [paths, calls_enter, hchains, hchain, List.mem_map, List.mem_append, List.mem_cons]
  constructor
  · rintro ⟨c, hc | rfl | hc, rfl⟩
    · exact Or.inr ⟨c, Or.inl hc, rfl⟩
    · exact Or.inl rfl
    · exact Or.inr ⟨c, Or.inr hc, rfl⟩
  · rintro (rfl | ⟨c, hc | hc, rfl⟩)
    · exact ⟨_, Or.inr (Or.inl rfl), rfl⟩
    · exact ⟨c, Or.inl hc, rfl⟩
    · exact ⟨c, Or.inr (Or.inr hc), rfl⟩

/-- **Leaving a call** adds that one to the completed calls: those made in it were complete. -/
theorem calls_leave
    (past : List Episode) (c : OngoingCall)
    (below : List OngoingCall) (timestamp : UInt64) :
    (leave ⟨past, c :: below⟩ timestamp).calls.Perm
      (⟨chain (c :: below), .ended c.entered timestamp c.made⟩ ::
        calls ⟨past, c :: below⟩) := by
  have hplaced : Call.placed (chain below) (.ended c.entered timestamp c.made) =
      ⟨chain (c :: below), .ended c.entered timestamp c.made⟩ ::
        c.made.flatMap (·.placed (chain (c :: below))) := by
    rw [Call.placed, chain_cons]
    rfl
  cases below with
  | nil =>
      have hafter : (leave ⟨past, [c]⟩ timestamp).calls =
          past.flatMap Episode.calls ++ Call.placed (chain []) (.ended c.entered timestamp c.made) := by
        simp [leave, calls, completed, Episode.calls, chain]
      have hbefore : calls ⟨past, [c]⟩ =
          past.flatMap Episode.calls ++ c.made.flatMap (·.placed (chain [c])) := by
        simp [calls, completed]
      rw [hafter, hbefore, hplaced]
      exact List.perm_middle
  | cons caller rest =>
      have hafter : (leave ⟨past, c :: caller :: rest⟩ timestamp).calls =
          calls ⟨past, caller :: rest⟩ ++
            Call.placed (chain (caller :: rest)) (.ended c.entered timestamp c.made) := by
        simp [leave, calls, completed, chain, callee]
      have hbefore : calls ⟨past, c :: caller :: rest⟩ =
          calls ⟨past, caller :: rest⟩ ++ c.made.flatMap (·.placed (chain (c :: caller :: rest))) := by
        simp [calls, completed]
      rw [hafter, hbefore, hplaced]
      exact List.perm_middle

/-- Leaving a call adds no path. -/
theorem mem_paths_leave
    (h : History) (timestamp : UInt64)
    (path : List UInt64) :
    path ∈ (h.leave timestamp).paths ↔ path ∈ h.paths := by
  obtain ⟨past, ongoing⟩ := h
  cases ongoing with
  | nil =>
      simp [leave, paths, calls, completed, chains, Episode.calls]
  | cons c below =>
      have hchains : chains (leave ⟨past, c :: below⟩ timestamp).ongoing = chains below := by
        cases below with
        | nil =>
            rfl
        | cons caller rest =>
            simp [leave, chains, chain, callee]
      have hcalls := (calls_leave past c below timestamp).map (·.chain)
      simp only [paths, List.mem_map, List.mem_append, hchains, hcalls.mem_iff, chains,
        List.map_cons, List.mem_cons]
      constructor
      · rintro ⟨d, (rfl | hd) | hd, rfl⟩
        · exact ⟨_, Or.inr (Or.inl rfl), rfl⟩
        · exact ⟨d, Or.inl hd, rfl⟩
        · exact ⟨d, Or.inr (Or.inr hd), rfl⟩
      · rintro ⟨d, hd | rfl | hd, rfl⟩
        · exact ⟨d, Or.inl (Or.inr hd), rfl⟩
        · exact ⟨_, Or.inl (Or.inl rfl), rfl⟩
        · exact ⟨d, Or.inr hd, rfl⟩

/-- An exit with no call open completes no call. -/
theorem calls_leave_nil
    (past : List Episode) (timestamp : UInt64) :
    (leave ⟨past, []⟩ timestamp).calls = calls ⟨past, []⟩ := by
  simp [leave, calls, completed, Episode.calls]

end History

end CallProfiler.Profile
