import CallProfiler.Profile.Trace
import CallProfiler.Proofs.Json.Forms
import CallProfiler.Proofs.Text.Sinks

/-!
# Stored traces

A trace is written as a document of numbers of 64 bits in records and lists, all of which are read as
they were written.  So what is stored of a recording is analysed as the recording itself was while it
went on.

**Main statements.**
* `faithful_form`: the form of traces.
* `ofBytes_writeTo`: what a sink with enough room has taken of a trace is read as that trace.
* `stored_traces_replay_alike`: a stored trace is analysed as its batches were.
-/

namespace CallProfiler.Profile

/-! ## The forms of events, batches and traces -/

theorem Event.faithful_form :
    Event.form.Faithful := by
  have hfields : (Json.Fields.field "timestamp" Json.Form.uint64
      (.field "callee" Json.Form.uint64 .done)).Faithful :=
    ⟨Json.Form.faithful_uint64, Json.Form.faithful_uint64, trivial⟩
  exact (Json.Form.faithful_record hfields (by decide)).map fun _ => rfl

theorem Chunk.faithful_form :
    Chunk.form.Faithful := by
  have hfields : (Json.Fields.field "thread_id" Json.Form.uint64
      (.field "records" (Json.Form.list Event.form) .done)).Faithful :=
    ⟨Json.Form.faithful_uint64, Event.faithful_form.list, trivial⟩
  exact (Json.Form.faithful_record hfields (by decide)).map fun _ => rfl

namespace Trace

/-- **The form of traces** reads what it wrote. -/
theorem faithful_form :
    form.Faithful :=
  Chunk.faithful_form.list.map fun _ => rfl

/-! ## Batches in a trace -/

/-- The trace of batches that are drained one after the other. -/
def ofBatches (batches : List (UInt64 × List Event)) : Trace :=
  batches.foldl (fun t b => t.push b.1 b.2) empty

/-- Every batch is one chunk. -/
theorem chunks_ofBatches
    (batches : List (UInt64 × List Event)) :
    (ofBatches batches).chunks = batches.map fun b => ⟨b.1, b.2⟩ := by
  have honto : ∀ t : Trace, (batches.foldl (fun t b => t.push b.1 b.2) t).chunks =
      t.chunks ++ batches.map fun b => ⟨b.1, b.2⟩ := by
    induction batches with
    | nil =>
        intro t
        simp
    | cons b rest ih =>
        intro t
        rw [List.foldl_cons, ih, push, List.append_assoc]
        rfl
  exact honto empty

/-- Replaying is analysing batch by batch. -/
theorem replay_ofBatches
    (batches : List (UInt64 × List Event)) (a : Analysis) :
    (ofBatches batches).replay a = batches.foldl (fun a b => a.accept b.1 b.2) a := by
  rw [replay, chunks_ofBatches, List.foldl_map]

/-! ## The text of a trace -/

/-- How many bytes a trace takes when it is stored. -/
def byteCount (t : Trace) : Nat := (Text.encoded t.print).length

/-- The text of a trace is not blank, since it starts with a bracket. -/
theorem not_blank_print
    (t : Trace) :
    t.print.all Text.isBlank = false := by
  have hbracket : ∃ more, t.print = '[' :: more := by
    change ∃ more, Json.spelled .compact 0 (.list (t.chunks.map Chunk.form.write)) = '[' :: more
    cases t.chunks.map Chunk.form.write with
    | nil => exact ⟨_, Json.spelled_list_nil⟩
    | cons first rest => exact ⟨_, Json.spelled_list_cons first rest⟩
  obtain ⟨more, hprint⟩ := hbracket
  have hmark : Text.isBlank '[' = false := by decide
  rw [hprint, List.all_cons, hmark, Bool.false_and]

/-- A trace is read from its text. -/
theorem parse_print
    (t : Trace) :
    parse t.print = .ok t := by
  have hread : form.parse t.print = .ok t := faithful_form.parse_print .compact t
  rw [parse, not_blank_print, if_neg Bool.false_ne_true, hread]
  rfl

/-- **What a sink has taken** of a trace, if it has room enough, is read as that trace. -/
theorem ofBytes_writeTo
    (t : Trace) {room : Nat} (refusesFlush : Bool)
    (enough : t.byteCount ≤ room) :
    ∃ sink, t.writeTo (.fresh room refusesFlush) = (.ok (), sink) ∧ ofBytes ⟨sink.taken⟩ = .ok t := by
  have hfits := Text.Sink.putAll_fits (.fresh room refusesFlush) t.pieces
  have htaken := Text.Sink.taken_putAll (.fresh room refusesFlush) t.pieces
  have hall : ((Text.encoded t.pieces.flatten).take room).toArray = (Text.encoded t.print).toArray := by
    rw [List.take_of_length_le (by exact enough)]
    rfl
  refine ⟨((Text.Sink.fresh room refusesFlush).putAll t.pieces).2, ?_, ?_⟩
  · have hok : ((Text.Sink.fresh room refusesFlush).putAll t.pieces).1 = true :=
      hfits.trans (decide_eq_true enough)
    rw [writeTo]
    split
    next heq => rw [heq]
    next heq =>
      rw [heq] at hok
      cases hok
  · have hbytes : ((Text.Sink.fresh room refusesFlush).putAll t.pieces).2.taken =
        (Text.encoded t.print).toArray := by
      rw [htaken]
      change #[] ++ ((Text.encoded t.pieces.flatten).take room).toArray = _
      rw [hall, Array.empty_append]
    rw [ofBytes, hbytes, Text.fromUTF8?_encoded]
    simp only [String.toList_ofList, parse_print]

/-- **A stored trace is analysed as its batches were.**  Batches of any threads, empty ones and none at
all included, are put into a trace, and the trace is written to a sink that has room for it.  What the
sink has taken is read as the same trace, and a new analysis to which that is replayed tells the same as
one with the same overhead that was given the batches themselves: the same threads with the same trees,
node by node, the same open calls and the same number of events. -/
theorem stored_traces_replay_alike
    (o : Overhead) (batches : List (UInt64 × List Event)) (room : Nat) (refusesFlush : Bool)
    (enough : (ofBatches batches).byteCount ≤ room) :
    let t := ofBatches batches
    let live := batches.foldl (fun a b => a.accept b.1 b.2) (Analysis.empty o)
    t.chunks = batches.map (fun b => ⟨b.1, b.2⟩) ∧
      ∃ sink loaded, t.writeTo (.fresh room refusesFlush) = (.ok (), sink) ∧
        ofBytes ⟨sink.taken⟩ = .ok loaded ∧ loaded = t ∧
        let replayed := loaded.replay (.empty o)
        replayed.threadIds = live.threadIds ∧ (∀ thread, replayed.tree? thread = live.tree? thread) ∧
          (∀ thread, (replayed.threads.lookup thread).map (·.stack) =
            (live.threads.lookup thread).map (·.stack)) ∧
          replayed.accepted = live.accepted ∧ replayed = live := by
  intro t live
  obtain ⟨sink, hwrite, hread⟩ := ofBytes_writeTo t refusesFlush enough
  have hreplay : t.replay (.empty o) = live := replay_ofBatches batches (.empty o)
  refine ⟨chunks_ofBatches batches, sink, t, hwrite, hread, rfl, ?_⟩
  simp only [hreplay, implies_true, and_self]

/-- The largest numbers, an empty batch, and a call that is open when the trace ends. -/
theorem stored_traces_replay_alike_extremes :
    let o : Overhead := ⟨3, 5⟩
    let top : UInt64 := 18446744073709551615
    let batches : List (UInt64 × List Event) :=
      [(top, [⟨1, top⟩, ⟨top, 16⟩]), (0, []), (top, [⟨2, 0⟩])]
    (ofBatches batches).byteCount ≤ 400 ∧
      let t := ofBatches batches
      let live := batches.foldl (fun a b => a.accept b.1 b.2) (Analysis.empty o)
      t.chunks = batches.map (fun b => ⟨b.1, b.2⟩) ∧
        ∃ sink loaded, t.writeTo (.fresh 400 true) = (.ok (), sink) ∧
          ofBytes ⟨sink.taken⟩ = .ok loaded ∧ loaded = t ∧
          let replayed := loaded.replay (.empty o)
          replayed.threadIds = live.threadIds ∧ (∀ thread, replayed.tree? thread = live.tree? thread) ∧
            (∀ thread, (replayed.threads.lookup thread).map (·.stack) =
              (live.threads.lookup thread).map (·.stack)) ∧
            replayed.accepted = live.accepted ∧ replayed = live := by
  intro o top batches
  have henough : (ofBatches batches).byteCount ≤ 400 := by decide +kernel
  exact ⟨henough, stored_traces_replay_alike o batches 400 true henough⟩

end Trace

end CallProfiler.Profile
