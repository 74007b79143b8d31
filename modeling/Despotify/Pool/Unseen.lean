import Mathlib.Data.List.Basic

/-!
# Appending what is not there yet

`addUnseen acc l` appends the elements of `l` one by one, those apart that are
already there.

    addUnseen acc l = acc ++ (a part of l with no repetition and nothing of acc)
                                                              (addUnseen_eq_append)
    addUnseen acc l = l  ↔  acc is a prefix of l, and behind it nothing repeats
                                                              (addUnseen_eq_self)
-/

namespace Unseen

variable {α : Type} [DecidableEq α]

def addUnseen (acc l : List α) : List α :=
  l.foldl (fun acc a => if a ∈ acc then acc else acc ++ [a]) acc

theorem addUnseen_cons (acc : List α) (a : α) (l : List α) :
    addUnseen acc (a :: l) = addUnseen (if a ∈ acc then acc else acc ++ [a]) l := rfl

theorem addUnseen_append (acc l l' : List α) :
    addUnseen acc (l ++ l') = addUnseen (addUnseen acc l) l' := List.foldl_append ..

theorem addUnseen_of_subset {acc l : List α} (h : ∀ a ∈ l, a ∈ acc) : addUnseen acc l = acc := by
  induction l with
  | nil => rfl
  | cons a l ih =>
    rw [addUnseen_cons, if_pos (h a List.mem_cons_self)]
    exact ih fun b hb => h b (List.mem_cons_of_mem a hb)

theorem addUnseen_eq_append (acc l : List α) :
    ∃ new : List α, addUnseen acc l = acc ++ new ∧ new.Nodup ∧ ∀ a ∈ new, a ∉ acc := by
  induction l generalizing acc with
  | nil => exact ⟨[], (List.append_nil acc).symm, List.nodup_nil, fun a ha => by cases ha⟩
  | cons a l ih =>
    rw [addUnseen_cons]
    by_cases ha : a ∈ acc
    · rw [if_pos ha]
      exact ih acc
    · rw [if_neg ha]
      obtain ⟨new, hnew, hnodup, hout⟩ := ih (acc ++ [a])
      have hanew : a ∉ new := fun h => hout a h (List.mem_append_right acc List.mem_cons_self)
      refine ⟨a :: new, by rw [hnew, List.append_assoc]; rfl, List.nodup_cons.mpr ⟨hanew, hnodup⟩, ?_⟩
      intro b hb
      rcases List.mem_cons.mp hb with rfl | hb
      · exact ha
      · exact fun h => hout b hb (List.mem_append_left [a] h)

theorem addUnseen_of_nodup {acc l : List α} (hl : l.Nodup) (h : ∀ a ∈ l, a ∉ acc) :
    addUnseen acc l = acc ++ l := by
  induction l generalizing acc with
  | nil => exact (List.append_nil acc).symm
  | cons a l ih =>
    rw [List.nodup_cons] at hl
    rw [addUnseen_cons, if_neg (h a List.mem_cons_self), ih hl.2, List.append_assoc]
    · rfl
    · intro b hb hmem
      rcases List.mem_append.mp hmem with hmem | hmem
      · exact h b (List.mem_cons_of_mem a hb) hmem
      · rw [List.mem_singleton] at hmem
        exact hl.1 (hmem ▸ hb)

theorem length_addUnseen_le (acc l : List α) :
    (addUnseen acc l).length ≤ acc.length + l.length := by
  induction l generalizing acc with
  | nil => exact Nat.le_refl _
  | cons a l ih =>
    have h := ih (if a ∈ acc then acc else acc ++ [a])
    rw [addUnseen_cons, List.length_cons]
    split at h
    · rw [if_pos ‹_›]
      omega
    · rw [if_neg ‹_›]
      rw [List.length_append, List.length_singleton] at h
      omega

/-- Nothing was left out if the lengths add up. -/
theorem addUnseen_of_length {acc l : List α}
    (h : (addUnseen acc l).length = acc.length + l.length) : addUnseen acc l = acc ++ l := by
  induction l generalizing acc with
  | nil => exact (List.append_nil acc).symm
  | cons a l ih =>
    rw [addUnseen_cons, List.length_cons] at h
    rw [addUnseen_cons]
    by_cases ha : a ∈ acc
    · rw [if_pos ha] at h
      have hle := length_addUnseen_le acc l
      omega
    · rw [if_neg ha] at h ⊢
      rw [ih (by rw [h, List.length_append, List.length_singleton]; omega), List.append_assoc]
      rfl

/-- The result is `l` itself exactly when `acc` is where `l` begins and the rest
of `l` is new. -/
theorem addUnseen_eq_self {acc l : List α} :
    addUnseen acc l = l ↔ ∃ new, l = acc ++ new ∧ new.Nodup ∧ ∀ a ∈ new, a ∉ acc := by
  constructor
  · intro h
    obtain ⟨new, hnew, hrest⟩ := addUnseen_eq_append acc l
    exact ⟨new, h.symm.trans hnew, hrest⟩
  · rintro ⟨new, rfl, hnodup, hout⟩
    rw [addUnseen_append, addUnseen_of_subset fun a ha => ha, addUnseen_of_nodup hnodup hout]

end Unseen
