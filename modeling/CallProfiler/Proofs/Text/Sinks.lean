import CallProfiler.Text.Sink
import Mathlib.Tactic.SplitIfs

/-!
# What a sink takes

Pieces are written one after the other until the room is used up, so a sink takes the front of the
whole text, cut anywhere.  A sink may take only a part of what it is offered, and is then offered the rest;
that comes to the same, however large the parts are.

**Main statements.**
* `putAll_eq`: what is taken, and whether that is all, however much room there is.
* `offeredAll_iff`: what is taken in portions.
* `fromUTF8?_encoded`: bytes that were taken of a whole text spell it.
-/

namespace CallProfiler.Text

/-- The bytes of a text. -/
def encoded (s : List Char) : List UInt8 := s.flatMap String.utf8EncodeChar

theorem encoded_append
    (s t : List Char) :
    encoded (s ++ t) = encoded s ++ encoded t :=
  List.flatMap_append

/-- The bytes of a text spell it. -/
theorem fromUTF8?_encoded
    (s : List Char) :
    String.fromUTF8? ⟨(encoded s).toArray⟩ = some (String.ofList s) := by
  have hbytes : (⟨(encoded s).toArray⟩ : ByteArray) = (String.ofList s).toByteArray := by
    ext1
    simp [List.utf8Encode, encoded]
  rw [hbytes, String.fromUTF8?, dif_pos (String.ofList s).isValidUTF8]
  rfl

namespace Sink

variable {s : Sink}

/-- Takes bytes that there is room for. -/
def accept (s : Sink) (bytes : List UInt8) : Sink :=
  { s with room := s.room - bytes.length, taken := s.taken ++ bytes.toArray }

theorem room_accept
    (s : Sink) (bytes : List UInt8) :
    (s.accept bytes).room = s.room - bytes.length :=
  rfl

theorem accept_nil
    (s : Sink) :
    s.accept [] = s := by
  simp [accept]

theorem accept_append
    (s : Sink) (first more : List UInt8) :
    (s.accept first).accept more = s.accept (first ++ more) := by
  simp [accept, Nat.sub_sub, Array.append_assoc]

/-- Takes the front of bytes, as far as there is room, and tells whether that is all of them. -/
def front (s : Sink) (bytes : List UInt8) : Bool × Sink :=
  (decide (bytes.length ≤ s.room), s.accept (bytes.take s.room))

theorem front_nil
    (s : Sink) :
    s.front [] = (true, s) := by
  simp [front, accept_nil]

theorem front_fits
    {bytes : List UInt8}
    (hfits : bytes.length ≤ s.room) :
    s.front bytes = (true, s.accept bytes) := by
  rw [front, decide_eq_true hfits, List.take_of_length_le hfits]

theorem front_cut
    {bytes : List UInt8}
    (hcut : ¬ bytes.length ≤ s.room) :
    s.front bytes = (false, s.accept (bytes.take s.room)) := by
  rw [front, decide_eq_false hcut]

/-- What a result says: whether there was room, and what was taken. -/
theorem of_front_eq
    {bytes : List UInt8} {all : Bool} {t : Sink}
    (h : s.front bytes = (all, t)) :
    (bytes.length ≤ s.room ↔ all = true) ∧ s.accept (bytes.take s.room) = t := by
  rw [front, Prod.mk.injEq] at h
  exact ⟨by rw [← h.1, decide_eq_true_iff], h.2⟩

/-- **Two parts** are taken one after the other, if all of the first one was taken. -/
theorem front_append_of_all
    {first more : List UInt8} {t : Sink}
    (hall : s.front first = (true, t)) :
    s.front (first ++ more) = t.front more := by
  obtain ⟨hfits, rfl⟩ := of_front_eq hall
  rw [eq_self, iff_true] at hfits
  rw [front, front, List.length_append, List.take_append, List.take_of_length_le hfits, ← accept_append,
    room_accept, Prod.mk.injEq, decide_eq_decide]
  exact ⟨by omega, rfl⟩

theorem front_append_of_cut
    {first more : List UInt8} {t : Sink}
    (hcut : s.front first = (false, t)) :
    s.front (first ++ more) = (false, t) := by
  have hlong : ¬ first.length ≤ s.room := by simpa using (of_front_eq hcut).1
  have hnone : s.room - first.length = 0 := by omega
  rw [← hcut, front_cut hlong, front, List.length_append, List.take_append, hnone, List.take_zero,
    List.append_nil, decide_eq_false (by omega)]

theorem put_eq
    (s : Sink) (piece : List Char) :
    s.put piece = s.front (encoded piece) := by
  have hroom : s.room - (encoded piece).length = s.room - ((encoded piece).take s.room).length := by
    rw [List.length_take]
    omega
  rw [front, accept, ← hroom]
  rfl

/-- **The front of the whole text** is taken, and all pieces are if there is room for them. -/
theorem putAll_eq
    (s : Sink) (pieces : List (List Char)) :
    s.putAll pieces = s.front (encoded pieces.flatten) := by
  induction pieces generalizing s with
  | nil =>
      exact s.front_nil.symm
  | cons piece rest ih =>
      rw [putAll, put_eq, List.flatten_cons, encoded_append]
      split
      next hcut => exact (front_append_of_cut hcut).symm
      next hall => exact (ih _).trans (front_append_of_all hall).symm

theorem putAll_fits
    (s : Sink) (pieces : List (List Char)) :
    (s.putAll pieces).1 = decide ((encoded pieces.flatten).length ≤ s.room) :=
  congrArg Prod.fst (s.putAll_eq pieces)

theorem taken_putAll
    (s : Sink) (pieces : List (List Char)) :
    (s.putAll pieces).2.taken = s.taken ++ ((encoded pieces.flatten).take s.room).toArray :=
  congrArg (fun r => r.2.taken) (s.putAll_eq pieces)

/-! ## Portions -/

/-- What may come of bytes that are offered: a sink takes a portion of them, which is any but not none, and
is offered the others, until it has taken all or there is no room any more. -/
inductive Offered : Sink → List UInt8 → Bool × Sink → Prop
  | all (s : Sink) :
      Offered s [] (true, s)
  | full {s : Sink} {bytes : List UInt8} :
      bytes ≠ [] →
      s.room = 0 →
      Offered s bytes (false, s)
  | portion {s : Sink} {first more : List UInt8} {r : Bool × Sink} :
      first ≠ [] →
      first.length ≤ s.room →
      Offered (s.accept first) more r →
      Offered s (first ++ more) r

/-- What may come of pieces that are offered one after the other until one is not taken. -/
inductive OfferedAll : Sink → List (List UInt8) → Bool × Sink → Prop
  | all (s : Sink) :
      OfferedAll s [] (true, s)
  | cut {s t : Sink} {piece : List UInt8} (rest : List (List UInt8)) :
      Offered s piece (false, t) →
      OfferedAll s (piece :: rest) (false, t)
  | next {s t : Sink} {piece : List UInt8} {rest : List (List UInt8)} {r : Bool × Sink} :
      Offered s piece (true, t) →
      OfferedAll t rest r →
      OfferedAll s (piece :: rest) r

theorem Offered.front_eq
    {bytes : List UInt8} {r : Bool × Sink}
    (h : Offered s bytes r) :
    s.front bytes = r := by
  induction h with
  | all s =>
      exact s.front_nil
  | full hsome hfull =>
      have hpos := List.length_pos_iff.2 hsome
      rw [front_cut (by omega), hfull, List.take_zero, accept_nil]
  | portion _ hfits _ ih =>
      exact (front_append_of_all (front_fits hfits)).trans ih

theorem Offered.behind
    {first more : List UInt8} {r : Bool × Sink}
    (h : Offered (s.accept first) more r)
    (hfits : first.length ≤ s.room) :
    Offered s (first ++ more) r := by
  by_cases hempty : first = []
  · subst hempty
    exact s.accept_nil ▸ h
  · exact .portion hempty hfits h

theorem offered_front
    (s : Sink) (bytes : List UInt8) :
    Offered s bytes (s.front bytes) := by
  by_cases hfits : bytes.length ≤ s.room
  · have h := (Offered.all (s.accept bytes)).behind hfits
    rwa [List.append_nil, ← front_fits hfits] at h
  · -- All room is used up first.
    have hlength : (bytes.take s.room).length = s.room := by
      rw [List.length_take]
      omega
    have hrest : bytes.drop s.room ≠ [] := by
      rw [Ne, List.drop_eq_nil_iff]
      omega
    have hfull : (s.accept (bytes.take s.room)).room = 0 := by
      rw [room_accept, hlength, Nat.sub_self]
    have h := (Offered.full hrest hfull).behind (Nat.le_of_eq hlength)
    rwa [List.take_append_drop, ← front_cut hfits] at h

/-- **In portions** a sink takes the same as at once. -/
theorem offered_iff
    {bytes : List UInt8} {r : Bool × Sink} :
    Offered s bytes r ↔ s.front bytes = r :=
  ⟨Offered.front_eq, fun h => h ▸ s.offered_front bytes⟩

/-- **In pieces** too, wherever the whole is parted. -/
theorem offeredAll_iff
    {pieces : List (List UInt8)} {r : Bool × Sink} :
    OfferedAll s pieces r ↔ s.front pieces.flatten = r := by
  induction pieces generalizing s r with
  | nil =>
      rw [List.flatten_nil, front_nil]
      exact ⟨fun | .all _ => rfl, fun h => h ▸ .all s⟩
  | cons piece rest ih =>
      rw [List.flatten_cons]
      constructor
      · intro h
        cases h with
        | cut _ hcut => exact front_append_of_cut hcut.front_eq
        | next hall hrest => exact (front_append_of_all hall.front_eq).trans (ih.1 hrest)
      · rintro rfl
        have hpiece := s.offered_front piece
        rcases hfront : s.front piece with ⟨_ | _, t⟩
        · rw [front_append_of_cut hfront]
          exact .cut rest (hfront ▸ hpiece)
        · rw [front_append_of_all hfront]
          exact .next (hfront ▸ hpiece) (ih.2 rfl)

end Sink

end CallProfiler.Text
