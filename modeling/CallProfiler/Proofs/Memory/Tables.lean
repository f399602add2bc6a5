import CallProfiler.Memory.Arena
import CallProfiler.Proofs.Lookup

/-!
# Tables of an arena

Allocators, reservations and blocks are kept in lists under their numbers.  Putting a value in place
concerns one number only.

**Main statements.**
* `Arena.lookup_put`, `Arena.lookup_remove_of_ne`: looking up after an update.
* `Arena.mem_put_iff`: where numbers are distinct, what is in a table after a value was replaced.
-/

namespace CallProfiler.Memory.Arena

variable {α : Type} {key k : Nat} {value : α} {entries : List (Nat × α)}

theorem mem_put
    {e : Nat × α}
    (h : e ∈ put key value entries) :
    e = (key, value) ∨ e ∈ entries := by
  induction entries with
  | nil =>
      exact Or.inl (List.mem_singleton.mp h)
  | cons first rest ih =>
      simp only [put] at h
      split at h
      · rcases List.mem_cons.mp h with rfl | h
        · exact Or.inl rfl
        · exact Or.inr (List.mem_cons_of_mem _ h)
      · rcases List.mem_cons.mp h with rfl | h
        · exact Or.inr List.mem_cons_self
        · exact (ih h).imp_right (List.mem_cons_of_mem _)

theorem lookup_put :
    (put key value entries).lookup k = if k = key then some value else entries.lookup k := by
  induction entries with
  | nil =>
      by_cases hk : k = key <;> simp [put, List.lookup_cons, hk, beq_false_of_ne]
  | cons first rest ih =>
      obtain ⟨k', v⟩ := first
      rw [put]
      split
      · next hsame =>
          by_cases hk : k = key <;> simp [List.lookup_cons, hsame, hk, beq_false_of_ne]
      · next hother =>
          rw [List.lookup_cons, ih, List.lookup_cons]
          split
          · next hk =>
              rw [if_neg fun heq => hother ((beq_iff_eq.1 hk).symm.trans heq)]
          · rfl

theorem lookup_remove_of_ne
    (h : k ≠ key) :
    (remove key entries).lookup k = entries.lookup k := by
  induction entries with
  | nil =>
      rfl
  | cons first rest ih =>
      obtain ⟨k', v⟩ := first
      rw [remove] at ih ⊢
      by_cases hsame : k' = key
      · simp [List.lookup_cons, hsame, h, beq_false_of_ne, ← ih]
      · simp [List.lookup_cons, hsame, ← ih]

/-- Putting a value in place adds its number at the end, unless that is there already. -/
theorem keys_put :
    (put key value entries).map (·.1) =
      if key ∈ entries.map (·.1) then entries.map (·.1) else entries.map (·.1) ++ [key] := by
  induction entries with
  | nil =>
      rfl
  | cons first rest ih =>
      obtain ⟨k', v⟩ := first
      rw [put]
      split
      · next hsame =>
          simp [hsame]
      · next hother =>
          simp only [List.map_cons, ih, List.mem_cons, Ne.symm hother, false_or]
          split <;> rfl

theorem exists_mem_put
    (h : k = key ∨ ∃ v, (k, v) ∈ entries) :
    ∃ v, (k, v) ∈ put key value entries := by
  have hkey : k ∈ (put key value entries).map (·.1) := by
    rw [keys_put]
    rcases h with rfl | ⟨v, hv⟩
    · split
      · assumption
      · exact List.mem_append_right _ List.mem_cons_self
    · have hold : k ∈ entries.map (·.1) := List.mem_map_of_mem hv
      split
      · exact hold
      · exact List.mem_append_left _ hold
  obtain ⟨⟨k, v⟩, hmem, rfl⟩ := List.mem_map.1 hkey
  exact ⟨v, hmem⟩

/-- **After a value was replaced**, its key has the new one, and the others have theirs. -/
theorem mem_put_iff
    {e : Nat × α}
    (hkeys : (entries.map (·.1)).Nodup)
    (h : key ∈ entries.map (·.1)) :
    e ∈ put key value entries ↔ e = (key, value) ∨ e.1 ≠ key ∧ e ∈ entries := by
  obtain ⟨k, v⟩ := e
  have hkeys' : ((put key value entries).map (·.1)).Nodup := by
    rw [keys_put, if_pos h]
    exact hkeys
  rw [← lookup_eq_some_iff_mem hkeys']
  by_cases hsame : k = key
  · subst hsame
    simp [lookup_put, eq_comm]
  · rw [lookup_put, if_neg hsame, lookup_eq_some_iff_mem hkeys]
    simp [hsame]

end CallProfiler.Memory.Arena
