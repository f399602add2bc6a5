import CallProfiler.Proofs.Text.Sinks
import CallProfiler.Report.Export

/-!
# Writing a report

A report is written in many pieces, and a sink takes any portions of them.  Wherever the sink's room ends,
it has taken the front of the report, and the fault tells on which side of the end of the document that
is: the report is the document and a new line.

**Main statements.**
* `exportTo_eq`: what is taken, and the outcome.
* `report_is_cut_anywhere`: when each outcome occurs, however the report is parted.
-/

namespace CallProfiler.Report

open Profile

/-- The bytes of a report. -/
def reportBytes (names : Names) (a : Analysis) : List UInt8 := Text.encoded (exportText names a)

/-- The bytes of the document that a report holds. -/
def documentBytes (names : Names) (a : Analysis) : List UInt8 :=
  Text.encoded ((document names a).print .indented)

/-- The byte of a new line. -/
def newLine : List UInt8 := Text.encoded ['\n']

variable {names : Names} {a : Analysis} {s : Text.Sink}

theorem reportBytes_eq :
    reportBytes names a = documentBytes names a ++ newLine :=
  Text.encoded_append _ _

theorem length_reportBytes :
    (reportBytes names a).length = (documentBytes names a).length + 1 := by
  rw [reportBytes_eq, List.length_append]
  rfl

/-- What may come of a document that is offered in pieces, in portions of them, and of a new line behind
it. -/
inductive Written (pieces : List (List UInt8)) (s : Text.Sink) : Except ExportFault Unit × Text.Sink → Prop
  | cutInside {t : Text.Sink} :
      s.OfferedAll pieces (false, t) →
      Written pieces s (.error (.inDocument .full), t)
  | cutBehind {t u : Text.Sink} :
      s.OfferedAll pieces (true, t) →
      t.Offered newLine (false, u) →
      Written pieces s (.error (.behindDocument .full), u)
  | whole {t u : Text.Sink} :
      s.OfferedAll pieces (true, t) →
      t.Offered newLine (true, u) →
      Written pieces s (if u.refusesFlush then .error (.behindDocument .flushRefused) else .ok (), u)

/-- How writing a report of some length ends at a sink. -/
def outcome (length : Nat) (s : Text.Sink) : Except ExportFault Unit :=
  if s.room + 1 < length then .error (.inDocument .full)
  else if s.room < length then .error (.behindDocument .full)
  else if s.refusesFlush then .error (.behindDocument .flushRefused)
  else .ok ()

theorem putAll_document :
    s.putAll ((document names a).pieces .indented 0) = s.front (documentBytes names a) :=
  s.putAll_eq _

theorem put_newLine
    (t : Text.Sink) :
    t.put ['\n'] = t.front newLine :=
  t.put_eq _

/-- **Wherever the room ends**, the front of the report is taken, and the outcome tells how it ended. -/
theorem exportTo_eq :
    exportTo names a s =
      (outcome (reportBytes names a).length s, s.accept ((reportBytes names a).take s.room)) := by
  rw [exportTo, putAll_document]
  split
  next t hcut =>
    have hreport : s.front (reportBytes names a) = (false, t) := by
      rw [reportBytes_eq, Text.Sink.front_append_of_cut hcut]
    have hlong : ¬ (documentBytes names a).length ≤ s.room := by
      simpa using (Text.Sink.of_front_eq hcut).1
    rw [(Text.Sink.of_front_eq hreport).2, outcome, length_reportBytes, if_pos (by omega)]
  next t hall =>
    have hfits : (documentBytes names a).length ≤ s.room := (Text.Sink.of_front_eq hall).1.2 rfl
    have hreport : s.front (reportBytes names a) = t.put ['\n'] := by
      rw [reportBytes_eq, Text.Sink.front_append_of_all hall, put_newLine]
    have hbound : (reportBytes names a).length = (documentBytes names a).length + 1 := length_reportBytes
    split
    next u hcut =>
      rw [hcut] at hreport
      have hlong : ¬ (reportBytes names a).length ≤ s.room := by
        simpa using (Text.Sink.of_front_eq hreport).1
      rw [(Text.Sink.of_front_eq hreport).2, outcome, if_neg (by omega), if_pos (by omega)]
    next u hlast =>
      rw [hlast] at hreport
      obtain ⟨hroom, rfl⟩ := Text.Sink.of_front_eq hreport
      rw [eq_self, iff_true] at hroom
      have hflush : outcome (reportBytes names a).length s =
          if s.refusesFlush then .error (.behindDocument .flushRefused) else .ok () := by
        rw [outcome, if_neg (by omega), if_neg (by omega)]
      rw [hflush]
      rfl

theorem written_iff
    {pieces : List (List UInt8)} {r : Except ExportFault Unit × Text.Sink}
    (hspelled : pieces.flatten = documentBytes names a) :
    Written pieces s r ↔ r = exportTo names a s := by
  have hinside {r : Bool × Text.Sink} :
      s.OfferedAll pieces r ↔ s.putAll ((document names a).pieces .indented 0) = r := by
    rw [Text.Sink.offeredAll_iff, hspelled, putAll_document]
  have hbehind {t : Text.Sink} {r : Bool × Text.Sink} : t.Offered newLine r ↔ t.put ['\n'] = r := by
    rw [Text.Sink.offered_iff, put_newLine]
  constructor
  · intro h
    cases h with
    | cutInside hcut =>
        rw [exportTo, hinside.1 hcut]
    | cutBehind hall hcut =>
        rw [exportTo, hinside.1 hall]
        simp only [hbehind.1 hcut]
    | whole hall hlast =>
        rw [exportTo, hinside.1 hall]
        simp only [hbehind.1 hlast]
  · rintro rfl
    rw [exportTo]
    split
    next hcut =>
      exact .cutInside (hinside.2 hcut)
    next hall =>
      split
      next hcut =>
        exact .cutBehind (hinside.2 hall) (hbehind.2 hcut)
      next hlast =>
        exact .whole (hinside.2 hall) (hbehind.2 hlast)

/-- **A report is cut anywhere.**  Whatever pieces its document is parted in, and whatever portions of them
the sink takes, what comes of writing it is the same.  The sink has taken as much of the front of the
report as it has room for.  Writing succeeds exactly if there is room for all and the sink does not refuse to
be flushed; it fails within the document exactly if there is not even room for all but the new line at the
end, and behind the document exactly if there is room for just that, or for all and the sink refuses. -/
theorem report_is_cut_anywhere
    (names : Names) (a : Analysis) (s : Text.Sink) :
    (∀ pieces r, pieces.flatten = documentBytes names a → (Written pieces s r ↔ r = exportTo names a s)) ∧
    (exportTo names a s).2.taken = s.taken ++ ((reportBytes names a).take s.room).toArray ∧
    ((exportTo names a s).1 = .ok () ↔ (reportBytes names a).length ≤ s.room ∧ s.refusesFlush = false) ∧
    ((∃ fault, (exportTo names a s).1 = .error (.inDocument fault)) ↔
      s.room < (reportBytes names a).length - 1) ∧
    ((∃ fault, (exportTo names a s).1 = .error (.behindDocument fault)) ↔
      s.room = (reportBytes names a).length - 1 ∨
        (reportBytes names a).length ≤ s.room ∧ s.refusesFlush = true) := by
  have hlength : (reportBytes names a).length = (documentBytes names a).length + 1 := length_reportBytes
  refine ⟨fun _ _ => written_iff, ?_⟩
  rw [exportTo_eq]
  refine ⟨rfl, ?_⟩
  dsimp only
  rw [outcome]
  split_ifs <;> grind

end CallProfiler.Report
