/-!
# Folded recursion

A function that calls itself directly gets one nested node, in which all deeper direct recursion is
accounted.  So the path of a call in the tree is its chain of callees with every run of three or
more equal callees shortened to two, and the recursion level of a call is the number of calls around
it that have the same path.

**Main statements.**
* `shorten_reverse_cons`: how a chain's path changes when a call is made.
* `folded_shorten`: no path has three equal callees in a row.
* `samePath_shorten`: calls of one path are counted by the length of the innermost run.
-/

namespace CallProfiler.Profile

/-- The path of a chain of callees: a callee is left out if two more of the same follow it, so that
every run of three or more is shortened to two. -/
def shorten : List UInt64 → List UInt64
  | [] => []
  | callee :: rest =>
    if rest.take 2 = [callee, callee] then shorten rest else callee :: shorten rest

theorem shorten_cons
    (callee : UInt64) (rest : List UInt64) :
    shorten (callee :: rest) =
      if rest.take 2 = [callee, callee] then shorten rest else callee :: shorten rest := by
  rfl

/-- No three equal callees stand in a row. -/
def Folded (path : List UInt64) : Prop := ∀ callee, ¬ [callee, callee, callee] <:+: path

/-- Shortening leaves the first two callees. -/
theorem take_two_shorten
    (chain : List UInt64) :
    (shorten chain).take 2 = chain.take 2 := by
  induction chain with
  | nil =>
      rfl
  | cons callee rest ih =>
      rw [shorten_cons]
      split
      next hrun =>
        match rest, hrun with
        | [_], h => simp at h
        | second :: third :: more, h =>
            obtain ⟨rfl, rfl⟩ : second = callee ∧ third = callee := by
              simpa using h
            exact ih
      next =>
        have hone := congrArg (List.take 1) ih
        simpa [List.take_take] using hone

/-- **The path of a chain** has no three equal callees in a row. -/
theorem folded_shorten
    (chain : List UInt64) :
    Folded (shorten chain) := by
  induction chain with
  | nil =>
      intro callee h
      simp [shorten] at h
  | cons first rest ih =>
      rw [shorten_cons]
      split
      · exact ih
      next hrun =>
        intro callee h
        rcases List.infix_cons_iff.1 h with hstart | hlater
        · obtain ⟨rfl, more, hmore⟩ := List.cons_prefix_cons.1 hstart
          apply hrun
          rw [← take_two_shorten, ← hmore]
          rfl
        · exact ih callee hlater

/-- How many calls of the same function lie directly around the last call of a chain, apart from the
outermost of them. -/
def recursionLevel (chain : List UInt64) : Nat :=
  match chain.reverse with
  | [] => 0
  | callee :: below => (below.takeWhile (· = callee)).length - 1

/-- How many of the open calls, the innermost first, have a path. -/
def samePath (path : List UInt64) : List UInt64 → Nat
  | [] => 0
  | callee :: below =>
    (if shorten (callee :: below).reverse = path then 1 else 0) + samePath path below

/-- A callee added behind a chain stays, unless two of the same stand there already. -/
theorem shorten_append_singleton
    (chain : List UInt64) (callee : UInt64) :
    shorten (chain ++ [callee]) =
      if chain.reverse.take 2 = [callee, callee] then shorten chain
      else shorten chain ++ [callee] := by
  induction chain with
  | nil =>
      simp [shorten]
  | cons first rest ih =>
      match rest with
      | [] =>
          simp [shorten]
      | [second] =>
          by_cases hsame : second = first ∧ callee = first
          · obtain ⟨rfl, rfl⟩ := hsame
            simp [shorten]
          · have hrev : ¬ (second = callee ∧ first = callee) := by
              rintro ⟨rfl, rfl⟩
              exact hsame ⟨rfl, rfl⟩
            simp [shorten, hsame, hrev]
      | second :: third :: more =>
          have htake : ((second :: third :: more) ++ [callee]).take 2 =
              (second :: third :: more).take 2 := by
            simp
          have hrev : (first :: second :: third :: more).reverse.take 2 =
              (second :: third :: more).reverse.take 2 := by
            rw [List.reverse_cons, List.take_append_of_le_length]
            simp
          rw [List.cons_append, shorten_cons, htake, ih, hrev, shorten_cons first]
          by_cases hfirst : (second :: third :: more).take 2 = [first, first]
          · rw [if_pos hfirst, if_pos hfirst]
          · rw [if_neg hfirst, if_neg hfirst]
            split
            · rfl
            · rfl

/-- A call on top of open calls has their path if it is at least the third of its run, else one step
more. -/
theorem shorten_reverse_cons
    (callee : UInt64) (below : List UInt64) :
    shorten (callee :: below).reverse =
      if below.take 2 = [callee, callee] then shorten below.reverse
      else shorten below.reverse ++ [callee] := by
  rw [List.reverse_cons, shorten_append_singleton, List.reverse_reverse]

theorem length_shorten_le_cons
    (callee : UInt64) (below : List UInt64) :
    (shorten below.reverse).length ≤ (shorten (callee :: below).reverse).length := by
  rw [shorten_reverse_cons]
  split
  · exact Nat.le_refl _
  · simp

/-- A path longer than that of the innermost call belongs to none of the open calls. -/
theorem samePath_eq_zero
    {path below : List UInt64}
    (h : (shorten below.reverse).length < path.length) :
    samePath path below = 0 := by
  induction below with
  | nil =>
      rfl
  | cons callee below ih =>
      have hne : shorten (callee :: below).reverse ≠ path := by
        intro heq
        rw [heq] at h
        exact Nat.lt_irrefl _ h
      have hbelow := Nat.lt_of_le_of_lt (length_shorten_le_cons callee below) h
      rw [samePath, if_neg hne, ih hbelow]

/-- **Calls of one path** are those of the innermost run, less its outermost. -/
theorem samePath_shorten
    (callee : UInt64) (below : List UInt64) :
    samePath (shorten (callee :: below).reverse) below =
      (below.takeWhile (· = callee)).length - 1 := by
  induction below with
  | nil =>
      rfl
  | cons caller below ih =>
      by_cases hrun : (caller :: below).take 2 = [callee, callee]
      · -- At least the third of its run: the caller has the same path.
        obtain ⟨rfl, htail⟩ : caller = callee ∧ below.take 1 = [callee] := by
          simpa using hrun
        obtain ⟨more, rfl⟩ : ∃ more, below = caller :: more := by
          cases below with
          | nil =>
              simp at htail
          | cons c more =>
              exact ⟨more, by simpa using htail⟩
        rw [shorten_reverse_cons, if_pos hrun, samePath, if_pos rfl, ih]
        simp
        omega
      · have hlonger : (shorten (caller :: below).reverse).length <
            (shorten (callee :: caller :: below).reverse).length := by
          rw [shorten_reverse_cons callee, if_neg hrun]
          simp
        rw [samePath_eq_zero hlonger]
        by_cases hcaller : caller = callee
        · subst hcaller
          cases below with
          | nil =>
              simp
          | cons c more =>
              have hc : c ≠ caller := by
                rintro rfl
                exact hrun (by simp)
              simp [hc]
        · simp [hcaller]

end CallProfiler.Profile
