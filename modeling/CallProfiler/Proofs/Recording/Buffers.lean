import CallProfiler.Recording.Interleaving
import Mathlib.Data.List.Nodup

/-!
# What each operation does to the buffers

A collector keeps two buffers for each known thread: the one where the thread appends and the one
that a drain has swapped out.  For each operation there is one lemma on either buffer of every thread,
and one on the known threads.

**Main statements.**
* `buffered_advance`: a thread appends to its own buffer.
* `buffered_swap`, `swappedOut_swap`: a swap exchanges the two buffers of one thread.
* `buffered_forget`, `threads_forget`: a thread is forgotten only if nothing is left of it.
-/

namespace CallProfiler.Recording

open Profile (Event)

namespace Collector

variable {c : Collector} {t u : Nat}

/-! ## Finding logs and recorders -/

theorem log?_modifyLog
    (c : Collector) (t u : Nat) {f : Log → Log}
    (hf : ∀ l, (f l).thread = l.thread) :
    (c.modifyLog t f).log? u = if u = t then (c.log? u).map f else c.log? u := by
  unfold modifyLog log?
  rw [List.find?_map]
  have hpred : ((fun l : Log => decide (l.thread = u)) ∘ fun l => if l.thread = t then f l else l) =
      fun l => decide (l.thread = u) := by
    funext l
    by_cases hl : l.thread = t
    · simp [hl, hf]
    · simp [hl]
  rw [hpred]
  cases hfind : c.logs.find? (fun l => decide (l.thread = u)) with
  | none =>
      simp
  | some l =>
      have hthread : l.thread = u := by
        simpa using List.find?_some hfind
      by_cases hu : u = t
      · simp [hu, hthread]
      · simp [hu, hthread]

theorem threads_modifyLog
    (c : Collector) (t : Nat) {f : Log → Log}
    (hf : ∀ l, (f l).thread = l.thread) :
    (c.modifyLog t f).threads = c.threads := by
  unfold modifyLog threads
  rw [List.map_map]
  refine List.map_congr_left ?_
  intro l _
  by_cases hl : l.thread = t
  · simp [hl, hf]
  · simp [hl]

theorem recorder?_modifyRecorder
    (c : Collector) (t u : Nat) {f : Recorder → Recorder}
    (hf : ∀ r, (f r).thread = r.thread) :
    (c.modifyRecorder t f).recorder? u = if u = t then (c.recorder? u).map f else c.recorder? u := by
  unfold modifyRecorder recorder?
  rw [List.find?_map]
  have hpred : ((fun r : Recorder => decide (r.thread = u)) ∘
      fun r => if r.thread = t then f r else r) = fun r => decide (r.thread = u) := by
    funext r
    by_cases hr : r.thread = t
    · simp [hr, hf]
    · simp [hr]
  rw [hpred]
  cases hfind : c.recorders.find? (fun r => decide (r.thread = u)) with
  | none =>
      simp
  | some r =>
      have hthread : r.thread = u := by
        simpa using List.find?_some hfind
      by_cases hu : u = t
      · simp [hu, hthread]
      · simp [hu, hthread]

theorem isSome_recorder?_modifyRecorder
    (c : Collector) (t u : Nat) {f : Recorder → Recorder}
    (hf : ∀ r, (f r).thread = r.thread) :
    ((c.modifyRecorder t f).recorder? u).isSome = (c.recorder? u).isSome := by
  rw [recorder?_modifyRecorder c t u hf]
  by_cases hu : u = t
  · simp [hu]
  · simp [hu]

theorem log?_eq_none_iff :
    c.log? t = none ↔ t ∉ c.threads := by
  simp [log?, threads, List.find?_eq_none]

/-- Of a thread that is not known there is nothing. -/
theorem buffered_of_notMem
    (h : t ∉ c.threads) :
    c.buffered t = [] := by
  rw [buffered, log?_eq_none_iff.2 h]
  rfl

/-! ## Calls -/

/-- A call changes no buffer; it may make its thread known. -/
structure Calls (c c' : Collector) (t : Nat) : Prop where
  limit : c'.limit = c.limit
  threads : c'.threads = if (c.recorder? t).isSome then c.threads else c.threads ++ [t]
  buffered : ∀ u, c'.buffered u = c.buffered u
  swappedOut : ∀ u, c'.swappedOut u = c.swappedOut u
  recorder : ∀ u, (c'.recorder? u).isSome = ((c.recorder? u).isSome || u = t)

theorem calls_attach
    (c : Collector) (t : Nat) :
    c.Calls (c.attach t) t := by
  unfold attach
  cases hrecorder : (c.recorder? t).isSome with
  | true =>
      refine ⟨rfl, by rw [if_pos rfl, if_pos hrecorder], fun _ => rfl, fun _ => rfl, ?_⟩
      intro u
      by_cases hu : u = t
      · simp [hu, hrecorder]
      · simp [hu]
  | false =>
      have hlog : ∀ u, List.find? (fun l : Log => decide (l.thread = u)) (c.logs ++ [⟨t, [], []⟩]) =
          (c.log? u).or (if t = u then some ⟨t, [], []⟩ else none) := by
        intro u
        rw [List.find?_append, log?, List.find?_singleton]
        simp
      refine ⟨rfl, ?_, ?_, ?_, ?_⟩
      · simp [Collector.threads, hrecorder]
      · intro u
        have hfind := hlog u
        simp only [Bool.false_eq_true, if_false, Collector.buffered, Collector.log?] at hfind ⊢
        rw [hfind]
        cases List.find? (fun l : Log => decide (l.thread = u)) c.logs with
        | none =>
            by_cases hu : t = u <;> simp [hu]
        | some l =>
            rfl
      · intro u
        have hfind := hlog u
        simp only [Bool.false_eq_true, if_false, Collector.swappedOut, Collector.log?] at hfind ⊢
        rw [hfind]
        cases List.find? (fun l : Log => decide (l.thread = u)) c.logs with
        | none =>
            by_cases hu : t = u <;> simp [hu]
        | some l =>
            rfl
      · intro u
        simp only [Bool.false_eq_true, if_false, Collector.recorder?]
        rw [List.find?_append, List.find?_singleton]
        by_cases hu : t = u
        · simp [hu]
        · simp [hu, Ne.symm hu]

theorem Calls.modifyRecorder
    {c' : Collector}
    (h : c.Calls c' t)
    {f : Recorder → Recorder}
    (hf : ∀ r, (f r).thread = r.thread) :
    c.Calls (c'.modifyRecorder t f) t where
  limit := h.limit
  threads := h.threads
  buffered := h.buffered
  swappedOut := h.swappedOut
  recorder := by
    intro u
    rw [isSome_recorder?_modifyRecorder c' t u hf]
    exact h.recorder u

theorem calls_post
    (c : Collector) (t : Nat) (events : List Event) :
    c.Calls (c.post t events) t :=
  (calls_attach c t).modifyRecorder fun _ => rfl

theorem calls_enter
    (c : Collector) (t : Nat) (slot returnAddress timestamp callee : UInt64) :
    c.Calls (c.enter t slot returnAddress timestamp callee) t :=
  (calls_post c t _).modifyRecorder fun _ => rfl

theorem calls_exit
    (c : Collector) (t : Nat) (slot timestamp : UInt64) :
    c.Calls (c.exit t slot timestamp).2 t :=
  (calls_post c t _).modifyRecorder fun _ => rfl

/-! ## Appending and ending -/

section Advance

variable {e : Event}

theorem log?_of_next?
    (h : c.next? t = some e) :
    ∃ log, c.log? t = some log ∧ c.hasRoom log = true := by
  unfold next? at h
  cases hrecorder : c.recorder? t with
  | none =>
      simp [hrecorder] at h
  | some r =>
      cases hlog : c.log? t with
      | none =>
          simp [hrecorder, hlog] at h
      | some log =>
          rw [hrecorder, hlog] at h
          refine ⟨log, rfl, ?_⟩
          by_contra hroom
          simp [hroom] at h

theorem advance_eq
    (h : c.next? t = some e) :
    c.advance t =
      (c.modifyLog t fun l => { l with active := l.active ++ [e] }).modifyRecorder t
        fun r => { r with pending := r.pending.tail } := by
  unfold advance
  rw [h]

theorem log?_advance
    (h : c.next? t = some e) (u : Nat) :
    (c.advance t).log? u =
      if u = t then (c.log? u).map fun l => { l with active := l.active ++ [e] } else c.log? u := by
  rw [advance_eq h]
  exact log?_modifyLog c t u fun _ => rfl

/-- A thread appends to its own buffer. -/
theorem buffered_advance
    (h : c.next? t = some e) (u : Nat) :
    (c.advance t).buffered u = if u = t then c.buffered u ++ [e] else c.buffered u := by
  unfold buffered
  rw [log?_advance h]
  by_cases hu : u = t
  · obtain ⟨log, hlog, _⟩ := log?_of_next? h
    simp [hu, hlog]
  · simp [hu]

theorem swappedOut_advance
    (h : c.next? t = some e) (u : Nat) :
    (c.advance t).swappedOut u = c.swappedOut u := by
  unfold swappedOut
  rw [log?_advance h]
  by_cases hu : u = t
  · cases hlog : c.log? t <;> simp [hu, hlog]
  · simp [hu]

theorem threads_advance
    (h : c.next? t = some e) :
    (c.advance t).threads = c.threads := by
  rw [advance_eq h]
  exact threads_modifyLog c t fun _ => rfl

theorem isSome_recorder?_advance
    (h : c.next? t = some e) (u : Nat) :
    ((c.advance t).recorder? u).isSome = (c.recorder? u).isSome := by
  rw [advance_eq h]
  exact isSome_recorder?_modifyRecorder (c.modifyLog t _) t u fun _ => rfl

/-- With a limit, there is room for one more. -/
theorem length_buffered_lt
    (h : c.next? t = some e)
    (hlimit : 0 < c.limit) :
    (c.buffered t).length < c.limit := by
  obtain ⟨log, hlog, hroom⟩ := log?_of_next? h
  have hnonzero : c.limit ≠ 0 := Nat.ne_of_gt hlimit
  rw [buffered, hlog]
  simpa [hasRoom, hnonzero] using hroom

end Advance

theorem recorder?_leave
    (c : Collector) {t u : Nat}
    (hu : u ≠ t) :
    (c.leave t).recorder? u = c.recorder? u := by
  unfold leave recorder?
  rw [List.find?_filter]
  refine congrArg (c.recorders.find? ·) ?_
  funext r
  by_cases hr : r.thread = u
  · simp [hr, hu]
  · simp [hr]

/-! ## Drains -/

theorem log?_swap
    (c : Collector) (t u : Nat) :
    (c.swap t).log? u =
      if u = t then (c.log? u).map fun l => { l with active := l.inactive, inactive := l.active }
      else c.log? u :=
  log?_modifyLog c t u fun _ => rfl

theorem log?_clear
    (c : Collector) (t u : Nat) :
    (c.clear t).log? u =
      if u = t then (c.log? u).map fun l => { l with inactive := [] } else c.log? u :=
  log?_modifyLog c t u fun _ => rfl

theorem buffered_swap
    (c : Collector) (t u : Nat) :
    (c.swap t).buffered u = if u = t then c.swappedOut u else c.buffered u := by
  unfold buffered swappedOut
  rw [log?_swap]
  by_cases hu : u = t
  · rw [if_pos hu, if_pos hu]
    cases c.log? u <;> rfl
  · rw [if_neg hu, if_neg hu]

theorem swappedOut_swap
    (c : Collector) (t u : Nat) :
    (c.swap t).swappedOut u = if u = t then c.buffered u else c.swappedOut u := by
  unfold buffered swappedOut
  rw [log?_swap]
  by_cases hu : u = t
  · rw [if_pos hu, if_pos hu]
    cases c.log? u <;> rfl
  · rw [if_neg hu, if_neg hu]

theorem buffered_clear
    (c : Collector) (t u : Nat) :
    (c.clear t).buffered u = c.buffered u := by
  unfold buffered
  rw [log?_clear]
  by_cases hu : u = t
  · rw [if_pos hu]
    cases c.log? u <;> rfl
  · rw [if_neg hu]

theorem swappedOut_clear
    (c : Collector) (t u : Nat) :
    (c.clear t).swappedOut u = if u = t then [] else c.swappedOut u := by
  unfold swappedOut
  rw [log?_clear]
  by_cases hu : u = t
  · rw [if_pos hu, if_pos hu]
    cases c.log? u <;> rfl
  · rw [if_neg hu, if_neg hu]

theorem threads_swap
    (c : Collector) (t : Nat) :
    (c.swap t).threads = c.threads :=
  threads_modifyLog c t fun _ => rfl

theorem threads_clear
    (c : Collector) (t : Nat) :
    (c.clear t).threads = c.threads :=
  threads_modifyLog c t fun _ => rfl

/-- Forgetting changes nothing, or the thread ended and there is nothing in its buffer. -/
theorem log?_forget
    (hdistinct : c.threads.Nodup) (t u : Nat) :
    (c.forget t).log? u = c.log? u ∨
      (u = t ∧ c.recorder? t = none ∧ c.buffered t = [] ∧ (c.forget t).log? u = none) := by
  have hfind : (c.forget t).log? u = c.logs.find? fun l =>
      (l.thread ≠ t || (c.recorder? t).isSome || l.active ≠ []) && l.thread = u := by
    unfold forget log?
    rw [List.find?_filter]
    simp
  by_cases hu : u = t
  · subst hu
    cases hkept : (c.forget u).log? u with
    | some x =>
        left
        rw [hfind] at hkept
        have hx := List.mem_of_find?_eq_some hkept
        have hthread := List.find?_some hkept
        simp only [Bool.and_eq_true, decide_eq_true_eq] at hthread
        cases hlog : c.log? u with
        | none =>
            exact absurd (List.mem_map.2 ⟨x, hx, hthread.2⟩) (log?_eq_none_iff.1 hlog)
        | some l =>
            have hl := List.mem_of_find?_eq_some hlog
            have hthread' : l.thread = u := by
              simpa using List.find?_some hlog
            rw [List.inj_on_of_nodup_map hdistinct hx hl (hthread.2.trans hthread'.symm)]
    | none =>
        cases hlog : c.log? u with
        | none =>
            exact .inl rfl
        | some l =>
            right
            have hl := List.mem_of_find?_eq_some hlog
            have hthread : l.thread = u := by
              simpa using List.find?_some hlog
            rw [hfind] at hkept
            have hgone := List.find?_eq_none.1 hkept l hl
            simp only [hthread, ne_eq, not_true_eq_false, decide_false, Bool.false_or, decide_true,
              Bool.and_true, Bool.or_eq_true, decide_eq_true_eq, not_or, not_not] at hgone
            refine ⟨rfl, by simpa using hgone.1, ?_, rfl⟩
            rw [buffered, hlog]
            exact hgone.2
  · left
    rw [hfind]
    refine congrArg (c.logs.find? ·) ?_
    funext l
    by_cases hl : l.thread = u
    · simp [hl, hu]
    · simp [hl]

theorem buffered_forget
    (hdistinct : c.threads.Nodup) (t u : Nat) :
    (c.forget t).buffered u = c.buffered u := by
  rcases log?_forget hdistinct t u with hsame | ⟨rfl, _, hempty, hgone⟩
  · unfold buffered
    rw [hsame]
  · rw [hempty, buffered, hgone]
    rfl

theorem swappedOut_forget
    (hdistinct : c.threads.Nodup)
    (hempty : c.swappedOut t = []) (u : Nat) :
    (c.forget t).swappedOut u = c.swappedOut u := by
  rcases log?_forget hdistinct t u with hsame | ⟨rfl, _, _, hgone⟩
  · unfold swappedOut
    rw [hsame]
  · rw [hempty, swappedOut, hgone]
    rfl

/-- A thread that is forgotten ended, and there is nothing in its buffer. -/
theorem threads_forget
    (hdistinct : c.threads.Nodup)
    (hknown : u ∈ c.threads)
    (hgone : u ∉ (c.forget t).threads) :
    u = t ∧ c.recorder? u = none ∧ c.buffered u = [] := by
  rcases log?_forget hdistinct t u with hsame | ⟨rfl, hended, hempty, _⟩
  · rw [log?_eq_none_iff.2 hgone] at hsame
    exact absurd hknown (log?_eq_none_iff.1 hsame.symm)
  · exact ⟨rfl, hended, hempty⟩

theorem sublist_threads_forget
    (c : Collector) (t : Nat) :
    (c.forget t).threads.Sublist c.threads :=
  List.filter_sublist.map _

end Collector

end CallProfiler.Recording
