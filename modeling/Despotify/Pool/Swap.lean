import Despotify.Pool.Keyed
import Mathlib.Data.List.Perm.Basic

/-!
# Removal by swapping in the last record

An array of records loses record `i` by moving the last one into its place:
`a[i] = a[--n]`.  The order changes; over distinct keys exactly the record with
the key of `a[i]` is gone (`mem_swapRemove`).
-/

namespace Keyed

variable {α κ : Type} {key : α → κ}

def swapRemove (l : List α) (i : Nat) : List α :=
  match l.getLast? with
  | none => []
  | some a => (l.set i a).dropLast

theorem perm_swapRemove {l : List α} {i : Nat} (h : i < l.length) :
    (swapRemove l i).Perm (l.eraseIdx i) := by
  obtain ⟨init, a, rfl⟩ : ∃ init a, l = init ++ [a] := by
    have hne : l ≠ [] := List.ne_nil_of_length_pos (by omega)
    exact ⟨l.dropLast, l.getLast hne, (List.dropLast_append_getLast hne).symm⟩
  have hlast : (init ++ [a]).getLast? = some a := by simp
  unfold swapRemove
  rw [hlast]
  dsimp only
  rw [List.length_append, List.length_singleton] at h
  rcases Nat.lt_or_eq_of_le (Nat.le_of_lt_succ h) with hlt | rfl
  · have hset : (init ++ [a]).set i a = init.set i a ++ [a] := List.set_append_left i a hlt
    rw [hset, List.dropLast_concat, List.eraseIdx_append_of_lt_length hlt,
      List.set_eq_take_append_cons_drop, if_pos hlt, List.eraseIdx_eq_take_drop_succ,
      List.append_assoc]
    exact (List.perm_append_singleton a _).symm.append_left _
  · rw [List.set_append_right _ _ (Nat.le_refl _), List.eraseIdx_append_of_length_le (Nat.le_refl _)]
    simp

theorem nodup_swapRemove {l : List α} (hl : (l.map key).Nodup) {i : Nat} (h : i < l.length) :
    ((swapRemove l i).map key).Nodup := by
  rw [((perm_swapRemove h).map key).nodup_iff]
  exact hl.sublist ((List.eraseIdx_sublist l i).map key)

/-- Among distinct keys, what is left are the records with other keys. -/
theorem mem_swapRemove {l : List α} (hl : (l.map key).Nodup) {i : Nat} {a : α}
    (h : l[i]? = some a) (x : α) : x ∈ swapRemove l i ↔ x ∈ l ∧ key x ≠ key a := by
  obtain ⟨hlt, rfl⟩ := List.getElem?_eq_some_iff.mp h
  have hperm : l.Perm (l[i] :: l.eraseIdx i) := (List.getElem_cons_eraseIdx_perm hlt).symm
  have hnodup := (hperm.map key).nodup_iff.mp hl
  rw [List.map_cons, List.nodup_cons] at hnodup
  rw [(perm_swapRemove hlt).mem_iff, hperm.mem_iff, List.mem_cons]
  constructor
  · intro hx
    exact ⟨Or.inr hx, fun hk => hnodup.1 (hk ▸ List.mem_map_of_mem hx)⟩
  · rintro ⟨rfl | hx, hk⟩
    · exact absurd rfl hk
    · exact hx

end Keyed
