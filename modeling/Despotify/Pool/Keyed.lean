import Mathlib.Data.List.Nodup

/-!
# Keyed lists: records found, changed and unlinked by a key

A singly linked list of records, searched front to back by a key: `find`,
`update` (in place, the key kept) and `remove` (the first record with the key,
`none` when there is none).  Over a list whose keys are pairwise distinct:

* `find_eq_some`: `find` selects exactly the record with the key.
* `mem_remove`: `remove` drops that record and no other.
* `find_update`, `find_overwrite`, `find_remove`, `find_filter_ne`, `find_cons`:
  what the other keys see.
-/

namespace Keyed

variable {α κ : Type} [DecidableEq κ] {key : α → κ}

def find (key : α → κ) (k : κ) (l : List α) : Option α := l.find? fun a => key a = k

def update (key : α → κ) (k : κ) (f : α → α) (l : List α) : List α :=
  l.map fun a => if key a = k then f a else a

def remove (key : α → κ) (k : κ) : List α → Option (List α)
  | [] => none
  | a :: l => if key a = k then some l else (remove key k l).map (a :: ·)

/-! ## Finding -/

theorem find_cons (k : κ) (a : α) (l : List α) :
    find key k (a :: l) = if key a = k then some a else find key k l := by
  unfold find
  rw [List.find?_cons]
  by_cases h : key a = k <;> simp [h]

theorem find_mem {k : κ} {l : List α} {a : α} (h : find key k l = some a) :
    a ∈ l ∧ key a = k :=
  ⟨List.mem_of_find?_eq_some h, by simpa using List.find?_some h⟩

theorem find_eq_none {k : κ} {l : List α} : find key k l = none ↔ k ∉ l.map key := by
  simp [find, List.find?_eq_none]

/-- Among distinct keys, the record found is the one with the key. -/
theorem find_eq_some {k : κ} {l : List α} {a : α} (hl : (l.map key).Nodup) :
    find key k l = some a ↔ a ∈ l ∧ key a = k := by
  refine ⟨find_mem, ?_⟩
  rintro ⟨ha, rfl⟩
  induction l with
  | nil => cases ha
  | cons b l ih =>
    rw [List.map_cons, List.nodup_cons] at hl
    rw [find_cons]
    rcases List.mem_cons.mp ha with rfl | ha
    · rw [if_pos rfl]
    · have hne : key b ≠ key a := fun h => hl.1 (h ▸ List.mem_map_of_mem ha)
      rw [if_neg hne]
      exact ih hl.2 ha

/-! ## Changing in place -/

theorem map_update {β : Type} (g : α → β) (k : κ) {f : α → α} (hf : ∀ a, g (f a) = g a)
    (l : List α) : (update key k f l).map g = l.map g := by
  unfold update
  rw [List.map_map]
  refine List.map_congr_left fun a _ => ?_
  by_cases h : key a = k <;> simp [h, hf]

theorem find_update (k k' : κ) {f : α → α} (hf : ∀ a, key (f a) = key a) (l : List α) :
    find key k' (update key k f l) =
      if k' = k then (find key k l).map f else find key k' l := by
  induction l with
  | nil => simp [find, update]
  | cons a l ih =>
    have hu : update key k f (a :: l) = (if key a = k then f a else a) :: update key k f l := rfl
    have hkey : key (if key a = k then f a else a) = key a := by
      by_cases h : key a = k <;> simp [h, hf]
    rw [hu, find_cons, hkey, find_cons, find_cons, ih]
    by_cases h : key a = k'
    · subst h
      by_cases h' : key a = k <;> simp [h']
    · by_cases h' : k' = k
      · subst h'
        simp [h]
      · simp [h, h']

/-! ## Overwriting -/

theorem update_self_cons (c a : α) (l : List α) :
    update key (key c) (fun _ => c) (a :: l) =
      (if key a = key c then c else a) :: update key (key c) (fun _ => c) l := rfl

theorem map_overwrite (c : α) (l : List α) :
    (update key (key c) (fun _ => c) l).map key = l.map key := by
  induction l with
  | nil => rfl
  | cons a l ih =>
    rw [update_self_cons, List.map_cons, List.map_cons, ih]
    by_cases h : key a = key c <;> simp [h]

theorem find_overwrite (c : α) (k : κ) (l : List α) :
    find key k (update key (key c) (fun _ => c) l) =
      if k = key c then (find key (key c) l).map fun _ => c else find key k l := by
  induction l with
  | nil => simp [find, update]
  | cons a l ih =>
    rw [update_self_cons, find_cons, find_cons, find_cons, ih]
    by_cases ha : key a = key c
    · by_cases hk : k = key c
      · simp [ha, hk]
      · simp [ha, hk, Ne.symm hk]
    · by_cases hk : k = key c
      · subst hk
        simp [ha]
      · simp [ha, hk]

theorem mem_overwrite {c x : α} {l : List α} (h : x ∈ update key (key c) (fun _ => c) l) :
    x = c ∨ x ∈ l ∧ key x ≠ key c := by
  obtain ⟨a, ha, rfl⟩ := List.mem_map.mp h
  by_cases hk : key a = key c
  · exact Or.inl (if_pos hk)
  · rw [if_neg hk]
    exact Or.inr ⟨ha, hk⟩

/-! ## Unlinking -/

theorem remove_sublist {k : κ} {l l' : List α} (h : remove key k l = some l') : l'.Sublist l := by
  induction l generalizing l' with
  | nil => cases h
  | cons a l ih =>
    unfold remove at h
    by_cases ha : key a = k
    · rw [if_pos ha] at h
      cases h
      exact List.sublist_cons_self a l
    · rw [if_neg ha] at h
      obtain ⟨l1, h1, rfl⟩ := Option.map_eq_some_iff.mp h
      exact (ih h1).cons_cons a

theorem nodup_remove {β : Type} {g : α → β} {k : κ} {l l' : List α}
    (h : remove key k l = some l') (hl : (l.map g).Nodup) : (l'.map g).Nodup :=
  hl.sublist ((remove_sublist h).map g)

theorem exists_remove {k : κ} {l : List α} (h : k ∈ l.map key) :
    ∃ l', remove key k l = some l' := by
  induction l with
  | nil => cases h
  | cons a l ih =>
    unfold remove
    by_cases ha : key a = k
    · exact ⟨l, if_pos ha⟩
    · have hmem : k ∈ l.map key := by
        rcases List.mem_cons.mp h with h | h
        · exact absurd h.symm ha
        · exact h
      obtain ⟨l', h'⟩ := ih hmem
      exact ⟨a :: l', by rw [if_neg ha, h']; rfl⟩

theorem mem_map_of_remove {k : κ} {l l' : List α} (h : remove key k l = some l') :
    k ∈ l.map key := by
  induction l generalizing l' with
  | nil => cases h
  | cons a l ih =>
    unfold remove at h
    by_cases ha : key a = k
    · rw [List.map_cons, ← ha]
      exact List.mem_cons_self
    · rw [if_neg ha] at h
      obtain ⟨l1, h1, rfl⟩ := Option.map_eq_some_iff.mp h
      exact List.mem_cons_of_mem _ (ih h1)

/-- Among distinct keys, what is left are the records with other keys. -/
theorem mem_remove {k : κ} {l l' : List α} (hl : (l.map key).Nodup)
    (h : remove key k l = some l') (a : α) : a ∈ l' ↔ a ∈ l ∧ key a ≠ k := by
  induction l generalizing l' with
  | nil => cases h
  | cons b l ih =>
    rw [List.map_cons, List.nodup_cons] at hl
    unfold remove at h
    by_cases hb : key b = k
    · rw [if_pos hb] at h
      cases h
      subst hb
      have hne : ∀ x ∈ l, key x ≠ key b := fun x hx hk => hl.1 (hk ▸ List.mem_map_of_mem hx)
      constructor
      · intro ha
        exact ⟨List.mem_cons_of_mem _ ha, hne a ha⟩
      · rintro ⟨ha, hk⟩
        rcases List.mem_cons.mp ha with rfl | ha
        · exact absurd rfl hk
        · exact ha
    · rw [if_neg hb] at h
      obtain ⟨l1, h1, rfl⟩ := Option.map_eq_some_iff.mp h
      rw [List.mem_cons, List.mem_cons, ih hl.2 h1]
      constructor
      · rintro (rfl | ⟨ha, hk⟩)
        · exact ⟨Or.inl rfl, hb⟩
        · exact ⟨Or.inr ha, hk⟩
      · rintro ⟨rfl | ha, hk⟩
        · exact Or.inl rfl
        · exact Or.inr ⟨ha, hk⟩

theorem find_remove {k : κ} {l l' : List α} (hl : (l.map key).Nodup)
    (h : remove key k l = some l') (k' : κ) :
    find key k' l' = if k' = k then none else find key k' l := by
  have hl' : (l'.map key).Nodup := nodup_remove h hl
  by_cases hk : k' = k
  · rw [if_pos hk, find_eq_none, List.mem_map]
    rintro ⟨a, ha, rfl⟩
    exact ((mem_remove hl h a).mp ha).2 hk
  · rw [if_neg hk]
    ext a
    rw [find_eq_some hl', find_eq_some hl, mem_remove hl h]
    constructor
    · rintro ⟨⟨ha, -⟩, rfl⟩
      exact ⟨ha, rfl⟩
    · rintro ⟨ha, rfl⟩
      exact ⟨⟨ha, hk⟩, rfl⟩

/-- With every record of one key dropped, that key is gone and the others see no change. -/
theorem find_filter_ne (k k' : κ) (l : List α) :
    find key k' (l.filter fun a => key a ≠ k) = if k' = k then none else find key k' l := by
  induction l with
  | nil => simp [find]
  | cons a l ih =>
    rw [List.filter_cons]
    by_cases ha : key a = k
    · rw [if_neg (by simpa using ha), ih, find_cons]
      by_cases hk : k' = k
      · simp [hk]
      · have hak : key a ≠ k' := fun h => hk (h.symm.trans ha)
        simp [hk, hak]
    · rw [if_pos (by simpa using ha), find_cons, find_cons, ih]
      by_cases hk : k' = k
      · subst hk
        simp [ha]
      · simp [hk]

end Keyed
