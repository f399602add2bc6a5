import CallProfiler.Image.Registry

/-!
# Records in order

The registry keeps its records by module and offset, at most one for each function.  Putting a record
in its place changes the list at one spot: the record of the same function gives way, if there is
one.

**Main statements.**
* `insertRecord_split`: the spot, and what stood there; `mem_insertRecord`, `patchesOf_insertRecord`:
  which records and patches there are then.
* `find?_eq_some_iff`: looking a function up finds its record.
* `mem_insertRecord_or_find?`: no other record gives way, in whatever order they are.
-/

namespace CallProfiler.Image

namespace Record

theorem before_iff
    {r : Record} {module offset : Nat} :
    r.before module offset = true ↔
      r.module < module ∨ (r.module = module ∧ r.offset < offset) := by
  simp [before]

/-- The records are for the same function. -/
def SameFunction (r r' : Record) : Prop := r.module = r'.module ∧ r.offset = r'.offset

/-- What was asked for, as if nothing existed. -/
def request (r : Record) : Record := { r with backing := .absent }

/-- The number of the patch of a record. -/
def patch? (r : Record) : Option Nat :=
  match r.backing with
  | .instantiated p => some p
  | _ => none

end Record

/-- The numbers of the patches of records. -/
def patchesOf (records : List Record) : List Nat := records.filterMap Record.patch?

theorem patchesOf_cons
    (r : Record) (records : List Record) :
    patchesOf (r :: records) = r.patch?.toList ++ patchesOf records := by
  unfold patchesOf
  rw [List.filterMap_cons]
  cases r.patch? <;> rfl

theorem patchesOf_append
    (records records' : List Record) :
    patchesOf (records ++ records') = patchesOf records ++ patchesOf records' :=
  List.filterMap_append

theorem mem_patchesOf
    {records : List Record} {r : Record} {p : Nat}
    (hr : r ∈ records)
    (hp : r.patch? = some p) :
    p ∈ patchesOf records :=
  List.mem_filterMap.2 ⟨r, hr, hp⟩

/-- Records by module and offset, at most one for each function. -/
def InOrder (records : List Record) : Prop :=
  records.Pairwise fun r r' => r.before r'.module r'.offset = true

/-- What exists has no part in the order. -/
theorem InOrder.of_requests
    {records records' : List Record}
    (h : InOrder records)
    (hsame : records'.map Record.request = records.map Record.request) :
    InOrder records' := by
  have hmap : ∀ l : List Record, InOrder (l.map Record.request) ↔ InOrder l := by
    intro l
    exact List.pairwise_map
  rw [← hmap, hsame, hmap]
  exact h

theorem mem_of_requests
    {records records' : List Record}
    (hsame : records'.map Record.request = records.map Record.request)
    {r : Record}
    (hr : r ∈ records') :
    ∃ x ∈ records, x.request = r.request := by
  have hmem : r.request ∈ records'.map Record.request := List.mem_map_of_mem hr
  rw [hsame] at hmem
  exact List.mem_map.1 hmem

namespace Registry

open Record

theorem not_sameFunction_of_before
    {r r' : Record}
    (h : r.before r'.module r'.offset = true) :
    ¬ r.SameFunction r' := by
  rintro ⟨hmodule, hoffset⟩
  rw [before_iff] at h
  omega

/-- **Putting a record in its place** changes one spot: the record of the same function, if there is
one, gives way. -/
theorem insertRecord_split
    (r : Record) {records : List Record}
    (h : InOrder records) :
    ∃ pre old post,
      records = pre ++ old.toList ++ post ∧
      insertRecord r records = pre ++ r :: post ∧
      old = records.find? (fun x => x.module = r.module && x.offset = r.offset) ∧
      InOrder (pre ++ r :: post) := by
  induction records with
  | nil =>
      exact ⟨[], none, [], rfl, rfl, rfl, List.pairwise_singleton _ _⟩
  | cons head rest ih =>
      have hhead : ∀ x ∈ rest, head.before x.module x.offset = true :=
        (List.pairwise_cons.1 h).1
      have hrest : InOrder rest := (List.pairwise_cons.1 h).2
      by_cases hbefore : head.before r.module r.offset = true
      · obtain ⟨pre, old, post, hsplit, hinsert, hold, horder⟩ := ih hrest
        have hne : ¬ (head.module = r.module ∧ head.offset = r.offset) :=
          not_sameFunction_of_before hbefore
        refine ⟨head :: pre, old, post, ?_, ?_, ?_, ?_⟩
        · rw [hsplit]
          rfl
        · rw [insertRecord, if_pos hbefore, hinsert]
          rfl
        · rw [hold, List.find?_cons_of_neg]
          simpa using hne
        · rw [List.cons_append]
          refine List.pairwise_cons.2 ⟨?_, horder⟩
          intro x hx
          rcases List.mem_append.1 hx with hx | hx
          · exact hhead x (by rw [hsplit]; simp [hx])
          · rcases List.mem_cons.1 hx with rfl | hx
            · exact hbefore
            · exact hhead x (by rw [hsplit]; simp [hx])
      · by_cases hsame : head.module = r.module ∧ head.offset = r.offset
        · refine ⟨[], some head, rest, rfl, ?_, ?_, ?_⟩
          · rw [insertRecord, if_neg hbefore, if_pos hsame]
            rfl
          · simp [hsame]
          · refine List.pairwise_cons.2 ⟨?_, hrest⟩
            intro x hx
            have hx := hhead x hx
            rw [before_iff] at hx ⊢
            omega
        · have hfirst : r.before head.module head.offset = true := by
            rw [before_iff] at hbefore ⊢
            omega
          have hlater : ∀ x ∈ head :: rest, r.before x.module x.offset = true := by
            intro x hx
            rcases List.mem_cons.1 hx with rfl | hx
            · exact hfirst
            · have hx := hhead x hx
              rw [before_iff] at hx hfirst ⊢
              omega
          refine ⟨[], none, head :: rest, rfl, ?_, ?_, ?_⟩
          · rw [insertRecord, if_neg hbefore, if_neg hsame]
            rfl
          · symm
            rw [List.find?_eq_none]
            intro x hx hfound
            have hx := not_sameFunction_of_before (hlater x hx)
            apply hx
            simp only [Bool.and_eq_true, decide_eq_true_eq] at hfound
            exact ⟨hfound.1.symm, hfound.2.symm⟩
          · exact List.pairwise_cons.2 ⟨hlater, h⟩

/-- There is one record for a function at most. -/
theorem eq_of_sameFunction
    {records : List Record}
    (h : InOrder records)
    {r r' : Record}
    (hr : r ∈ records)
    (hr' : r' ∈ records)
    (hsame : r.SameFunction r') :
    r = r' := by
  induction records with
  | nil =>
      cases hr
  | cons head rest ih =>
      have hhead := (List.pairwise_cons.1 h).1
      rcases List.mem_cons.1 hr with hfirst | hlater
      · rcases List.mem_cons.1 hr' with hfirst' | hlater'
        · rw [hfirst, hfirst']
        · rw [hfirst] at hsame
          exact absurd hsame (not_sameFunction_of_before (hhead r' hlater'))
      · rcases List.mem_cons.1 hr' with hfirst' | hlater'
        · rw [hfirst'] at hsame
          exact absurd ⟨hsame.1.symm, hsame.2.symm⟩ (not_sameFunction_of_before (hhead r hlater))
        · exact ih (List.pairwise_cons.1 h).2 hlater hlater'

theorem inOrder_insertRecord
    (r : Record) {records : List Record}
    (h : InOrder records) :
    InOrder (insertRecord r records) := by
  obtain ⟨_, _, _, _, hinsert, _, horder⟩ := insertRecord_split r h
  rw [hinsert]
  exact horder

theorem mem_insertRecord
    {r x : Record} {records : List Record}
    (h : InOrder records) :
    x ∈ insertRecord r records ↔ x = r ∨ (x ∈ records ∧ ¬ r.SameFunction x) := by
  obtain ⟨pre, old, post, hsplit, hinsert, hold, horder⟩ := insertRecord_split r h
  constructor
  · intro hx
    by_cases hsame : r.SameFunction x
    · left
      have hr : r ∈ insertRecord r records := by
        rw [hinsert]
        simp
      exact (eq_of_sameFunction (inOrder_insertRecord r h) hr hx hsame).symm
    · right
      refine ⟨?_, hsame⟩
      rw [hinsert] at hx
      rcases List.mem_append.1 hx with hx | hx
      · rw [hsplit]
        simp [hx]
      · rcases List.mem_cons.1 hx with rfl | hx
        · exact absurd ⟨rfl, rfl⟩ hsame
        · rw [hsplit]
          simp [hx]
  · rintro (rfl | ⟨hx, hdiffers⟩)
    · rw [hinsert]
      simp
    · rw [hsplit, List.mem_append, List.mem_append] at hx
      rw [hinsert]
      rcases hx with (hx | hx) | hx
      · simp [hx]
      · rw [Option.mem_toList] at hx
        rw [Option.mem_def.1 hx] at hold
        have hkey := List.find?_some hold.symm
        simp only [Bool.and_eq_true, decide_eq_true_eq] at hkey
        exact absurd ⟨hkey.1.symm, hkey.2.symm⟩ hdiffers
      · simp [hx]

/-- The patches of the other records are there before and after. -/
theorem patchesOf_insertRecord
    (r : Record) {g : Registry}
    (h : InOrder g.records) :
    ∃ others,
      (patchesOf g.records).Perm (((g.find? r.module r.offset).bind patch?).toList ++ others) ∧
      (patchesOf (g.put r).records).Perm (r.patch?.toList ++ others) ∧
      ∀ x ∈ g.records, ¬ r.SameFunction x → ∀ p, x.patch? = some p → p ∈ others := by
  obtain ⟨pre, old, post, hsplit, hinsert, hold, _⟩ := insertRecord_split r h
  have hput : (g.put r).records = pre ++ r :: post := hinsert
  have hfind : g.find? r.module r.offset = old := hold.symm
  have hmine : patchesOf old.toList = (old.bind patch?).toList := by
    cases old with
    | none =>
        rfl
    | some x =>
        rw [Option.toList_some, patchesOf_cons]
        exact List.append_nil _
  refine ⟨patchesOf pre ++ patchesOf post, ?_, ?_, ?_⟩
  · rw [hsplit, patchesOf_append, patchesOf_append, hfind, hmine, List.append_assoc]
    exact List.perm_append_comm_assoc _ _ _
  · rw [hput, patchesOf_append, patchesOf_cons]
    exact List.perm_append_comm_assoc _ _ _
  · intro x hx hdiffers p hp
    have hx' : x ∈ pre ++ r :: post := by
      rw [← hinsert]
      exact (mem_insertRecord h).2 (.inr ⟨hx, hdiffers⟩)
    rcases List.mem_append.1 hx' with hx' | hx'
    · exact List.mem_append_left _ (mem_patchesOf hx' hp)
    · rcases List.mem_cons.1 hx' with rfl | hx'
      · exact absurd ⟨rfl, rfl⟩ hdiffers
      · exact List.mem_append_right _ (mem_patchesOf hx' hp)

/-- Looking a function up finds its record, if there is one. -/
theorem find?_eq_some_iff
    {g : Registry}
    (h : InOrder g.records)
    {module offset : Nat} {r : Record} :
    g.find? module offset = some r ↔
      r ∈ g.records ∧ r.module = module ∧ r.offset = offset := by
  constructor
  · intro hfind
    have hkey := List.find?_some hfind
    simp only [Bool.and_eq_true, decide_eq_true_eq] at hkey
    exact ⟨List.mem_of_find?_eq_some hfind, hkey⟩
  · rintro ⟨hr, rfl, rfl⟩
    cases hfind : g.find? r.module r.offset with
    | none =>
        have hnone := List.find?_eq_none.1 hfind r hr
        simp at hnone
    | some r' =>
        have hkey := List.find?_some hfind
        simp only [Bool.and_eq_true, decide_eq_true_eq] at hkey
        rw [eq_of_sameFunction h hr (List.mem_of_find?_eq_some hfind) ⟨hkey.1.symm, hkey.2.symm⟩]

theorem find?_eq_none_iff
    {g : Registry} {module offset : Nat} :
    g.find? module offset = none ↔
      ∀ r ∈ g.records, ¬ (r.module = module ∧ r.offset = offset) := by
  simp [find?, List.find?_eq_none]

/-- At most one record is that of a function. -/
theorem filter_function
    {records : List Record}
    (h : InOrder records)
    (module offset : Nat) :
    records.filter (fun r => r.module = module && r.offset = offset) =
      (records.find? fun r => r.module = module && r.offset = offset).toList := by
  induction records with
  | nil =>
      rfl
  | cons head rest ih =>
      obtain ⟨hhead, hrest⟩ := List.pairwise_cons.1 h
      by_cases hfound : head.module = module ∧ head.offset = offset
      · have hnone : rest.filter (fun r => r.module = module && r.offset = offset) = [] := by
          refine List.filter_eq_nil_iff.2 ?_
          intro x hx hsame
          simp only [Bool.and_eq_true, decide_eq_true_eq] at hsame
          refine not_sameFunction_of_before (hhead x hx) ⟨?_, ?_⟩
          · exact hfound.1.trans hsame.1.symm
          · exact hfound.2.trans hsame.2.symm
        rw [List.filter_cons_of_pos (by simpa using hfound),
          List.find?_cons_of_pos (by simpa using hfound), hnone]
        rfl
      · rw [List.filter_cons_of_neg (by simpa using hfound),
          List.find?_cons_of_neg (by simpa using hfound), ih hrest]

/-! ### Without an order -/

theorem mem_of_mem_insertRecord
    {r x : Record} {records : List Record}
    (hx : x ∈ insertRecord r records) :
    x = r ∨ x ∈ records := by
  fun_induction insertRecord r records with
  | case1 =>
      exact .inl (List.mem_singleton.1 hx)
  | case2 head rest hbefore ih =>
      obtain rfl | hlater := List.mem_cons.1 hx
      · exact .inr List.mem_cons_self
      · exact (ih hlater).imp_right (List.mem_cons_of_mem head)
  | case3 head rest hbefore hsame =>
      exact (List.mem_cons.1 hx).imp_right (List.mem_cons_of_mem head)
  | case4 head rest hbefore hsame =>
      exact List.mem_cons.1 hx

theorem self_mem_insertRecord
    (r : Record) (records : List Record) :
    r ∈ insertRecord r records := by
  fun_induction insertRecord r records with
  | case2 head rest hbefore ih => exact List.mem_cons_of_mem head ih
  | _ => exact List.mem_cons_self

/-- Only the record of the function can give way. -/
theorem mem_insertRecord_or_find?
    (r : Record) {x : Record} {records : List Record}
    (hx : x ∈ records) :
    x ∈ insertRecord r records ∨
      records.find? (fun y => y.module = r.module && y.offset = r.offset) = some x := by
  fun_induction insertRecord r records with
  | case1 =>
      cases hx
  | case2 head rest hbefore ih =>
      have hother : ¬ (head.module = r.module ∧ head.offset = r.offset) :=
        not_sameFunction_of_before hbefore
      rw [List.find?_cons_of_neg (by simpa using hother)]
      obtain rfl | hlater := List.mem_cons.1 hx
      · exact .inl List.mem_cons_self
      · exact (ih hlater).imp_left (List.mem_cons_of_mem head)
  | case3 head rest hbefore hsame =>
      obtain rfl | hlater := List.mem_cons.1 hx
      · exact .inr (List.find?_cons_of_pos (by simpa using hsame))
      · exact .inl (List.mem_cons_of_mem r hlater)
  | case4 head rest hbefore hsame =>
      exact .inl (List.mem_cons_of_mem r hx)

theorem find?_put
    (g : Registry) (r : Record) :
    (g.put r).find? r.module r.offset = some r := by
  unfold find? put
  dsimp only
  fun_induction insertRecord r g.records with
  | case2 head rest hbefore ih =>
      have hother : ¬ (head.module = r.module ∧ head.offset = r.offset) :=
        not_sameFunction_of_before hbefore
      rw [List.find?_cons_of_neg (by simpa using hother)]
      exact ih
  | _ => simp

end Registry

end CallProfiler.Image
