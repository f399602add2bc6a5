import Mathlib.Data.List.Nodup

/-!
# Looking values up by their keys

Tables are lists of values with their keys.  Where the keys are distinct, a key stands for one value, and
looking it up gives just that.

**Main statements.**
* `lookup_eq_some_iff_mem`: what is found in a table is what is in it.
-/

namespace CallProfiler

variable {κ β : Type} [BEq κ] [LawfulBEq κ] {table : List (κ × β)} {key : κ} {value : β}

theorem mem_of_lookup
    (h : table.lookup key = some value) :
    (key, value) ∈ table := by
  obtain ⟨before, after, rfl, -⟩ := List.lookup_eq_some_iff.1 h
  exact List.mem_append_right _ List.mem_cons_self

/-- **Where keys are distinct**, a value is found under its key. -/
theorem lookup_eq_some_iff_mem
    (hkeys : (table.map (·.1)).Nodup) :
    table.lookup key = some value ↔ (key, value) ∈ table := by
  refine ⟨mem_of_lookup, fun hmem => ?_⟩
  cases hfound : table.lookup key with
  | none =>
      have hnone := List.lookup_eq_none_iff.1 hfound (key, value) hmem
      simp at hnone
  | some other =>
      have hsame := List.inj_on_of_nodup_map hkeys (mem_of_lookup hfound) hmem rfl
      cases hsame
      rfl

end CallProfiler
