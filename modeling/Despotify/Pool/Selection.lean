import Mathlib.Data.List.Nodup
import Mathlib.Data.List.Perm.Subperm
import Mathlib.Logic.Function.Basic
import Mathlib.Order.Basic
import Mathlib.Order.Lattice

/-!
# Selection by repeated minimum, with a mark

`n` entries are selected one after the other, each time one with the least key; an entry
that was selected gets the key `top`.  The search for the least key starts at the entry
selected last.  `none`: an entry is selected again.

* `lowest_spec`: what the search finds.
* `run_isSome_iff`: no entry is selected again when all keys are below the mark.
* `Selected`: the entries selected are in order, the first one the first of the least.
-/

namespace Selection

/-- The keys, those of what is selected replaced by the mark. -/
structure Marked (P : Type) where
  prio : Nat → P
  low : Nat
  picked : List Nat

theorem update_marked {P : Type} {top : P} {prio : Nat → P} {s : Marked P}
    (h : ∀ j, s.prio j = if j ∈ s.picked then top else prio j)
    (k j : Nat) :
    Function.update s.prio k top j = if j ∈ s.picked ++ [k] then top else prio j := by
  by_cases hj : j = k
  · rw [hj, Function.update_self, if_pos (by simp)]
  · rw [Function.update_of_ne hj, h]
    simp [hj]

variable {P : Type} [LinearOrder P]

/-- The search among the first `n` entries, from `low` on. -/
def lowest (prio : Nat → P) (n low : Nat) : Nat :=
  (List.range n).foldl (fun low j => if prio j < prio low then j else low) low

def step (top : P) (n : Nat) (s : Marked P) : Option (Marked P) :=
  let k := lowest s.prio n s.low
  if k ∈ s.picked then none else some ⟨Function.update s.prio k top, k, s.picked ++ [k]⟩

/-- After `i` selections. -/
def run (top : P) (n : Nat) (prio : Nat → P) : Nat → Option (Marked P)
  | 0 => some ⟨prio, 0, []⟩
  | i + 1 => (run top n prio i).bind (step top n)

/-! ## The search -/

theorem lowest_succ (prio : Nat → P) (n low : Nat) : lowest prio (n + 1) low =
    if prio n < prio (lowest prio n low) then n else lowest prio n low := by
  rw [lowest, List.range_succ, List.foldl_append]
  rfl

/-- Nothing is lower, and what is found is the first such entry or the one started from. -/
theorem lowest_spec (prio : Nat → P) (n low : Nat) :
    (∀ j < n, prio (lowest prio n low) ≤ prio j) ∧ prio (lowest prio n low) ≤ prio low ∧
      (lowest prio n low = low ∨ lowest prio n low < n ∧
        prio (lowest prio n low) < prio low ∧
          ∀ j < lowest prio n low, prio (lowest prio n low) < prio j) := by
  induction n with
  | zero => exact ⟨nofun, le_refl _, Or.inl rfl⟩
  | succ n ih =>
    obtain ⟨hall, hlow, hfirst⟩ := ih
    rw [lowest_succ]
    by_cases h : prio n < prio (lowest prio n low)
    · rw [if_pos h]
      refine ⟨fun j hj => ?_, (h.trans_le hlow).le, Or.inr ⟨Nat.lt_succ_self n, h.trans_le hlow,
        fun j hj => h.trans_le (hall j hj)⟩⟩
      rcases Nat.lt_succ_iff_lt_or_eq.mp hj with hj | rfl
      · exact (h.trans_le (hall j hj)).le
      · exact le_refl _
    · rw [if_neg h]
      refine ⟨fun j hj => ?_, hlow, hfirst.imp id fun ⟨hlt, hrest⟩ => ⟨by omega, hrest⟩⟩
      rcases Nat.lt_succ_iff_lt_or_eq.mp hj with hj | rfl
      · exact hall j hj
      · exact not_lt.mp h

/-! ## The run -/

/-- No key among the first `n` is less, and those before are greater. -/
def IsFirst (prio : Nat → P) (n k : Nat) : Prop :=
  k < n ∧ (∀ j < n, prio k ≤ prio j) ∧ ∀ j < k, prio k < prio j

theorem IsFirst.unique {prio : Nat → P} {n k k' : Nat} (h : IsFirst prio n k)
    (h' : IsFirst prio n k') : k = k' := by
  rcases Nat.lt_trichotomy k k' with hlt | heq | hlt
  · exact absurd (h'.2.2 k hlt) (not_lt.mpr (h.2.1 k' h'.1))
  · exact heq
  · exact absurd (h.2.2 k' hlt) (not_lt.mpr (h'.2.1 k h.1))

/-- After `i` selections from the keys `prio`. -/
structure Selected (top : P) (n : Nat) (prio : Nat → P) (i : Nat) (s : Marked P) : Prop where
  length : s.picked.length = i
  nodup : s.picked.Nodup
  lt : ∀ k ∈ s.picked, k < n
  marked : ∀ j, s.prio j = if j ∈ s.picked then top else prio j
  low : if s.picked = [] then s.low = 0 else s.low ∈ s.picked
  sorted : s.picked.Pairwise fun k j => prio k ≤ prio j
  cross : ∀ k ∈ s.picked, ∀ j < n, j ∉ s.picked → prio k ≤ prio j
  first : ∀ k ∈ s.picked.head?, IsFirst prio n k
  below : ∀ k ∈ s.picked.tail, prio k < top

variable {top : P} {n i : Nat} {prio : Nat → P} {s s' : Marked P}

theorem selected_zero : Selected top n prio 0 ⟨prio, 0, []⟩ :=
  ⟨rfl, List.nodup_nil, nofun, fun _ => rfl, rfl, List.Pairwise.nil, nofun, nofun, nofun⟩

/-- What is selected next, when it is not selected again. -/
theorem Selected.step (h : Selected top n prio i s) (hi : i < n)
    (hs : Selection.step top n s = some s') : Selected top n prio (i + 1) s' := by
  obtain ⟨hall, -, hfirst⟩ := lowest_spec s.prio n s.low
  obtain ⟨k, hk⟩ : ∃ k, k = lowest s.prio n s.low := ⟨_, rfl⟩
  rw [Selection.step, ← hk] at hs
  rw [← hk] at hall hfirst
  by_cases hmem : k ∈ s.picked
  · rw [if_pos hmem] at hs
    cases hs
  rw [if_neg hmem] at hs
  cases hs
  have hprio : s.prio k = prio k := by rw [h.marked, if_neg hmem]
  by_cases hnil : s.picked = []
  · -- the first one
    have hsame : s.prio = prio := by
      funext j
      rw [h.marked, if_neg (by rw [hnil]; exact List.not_mem_nil)]
    have hlow := h.low
    rw [if_pos hnil] at hlow
    have hkfirst : IsFirst prio n k := by
      rw [hsame] at hall hfirst
      rcases hfirst with hk0 | ⟨hlt, -, hbefore⟩
      · rw [hlow] at hk0
        rw [hk0] at hall ⊢
        exact ⟨by omega, hall, nofun⟩
      · exact ⟨hlt, hall, hbefore⟩
    have hzero : i = 0 := by rw [← h.length, hnil, List.length_nil]
    have hmarked := update_marked h.marked k
    rw [hnil, List.nil_append] at hmarked ⊢
    refine ⟨by rw [hzero, List.length_singleton], List.nodup_singleton k, ?_, hmarked, ?_,
      List.pairwise_singleton _ _, ?_, ?_, nofun⟩
    · intro j hj
      rw [List.mem_singleton.mp hj]
      exact hkfirst.1
    · rw [if_neg (List.cons_ne_nil _ _)]
      exact List.mem_singleton_self k
    · intro j hj j' hj' _
      rw [List.mem_singleton.mp hj]
      exact hkfirst.2.1 j' hj'
    · intro j hj
      cases Option.some.inj hj
      exact hkfirst
  · have hlow := h.low
    rw [if_neg hnil] at hlow
    have hne : k ≠ s.low := fun heq => hmem (heq ▸ hlow)
    obtain ⟨hlt, htop, -⟩ := hfirst.resolve_left hne
    rw [hprio, h.marked, if_pos hlow] at htop
    refine ⟨by rw [List.length_append, h.length, List.length_singleton], ?_, ?_,
      update_marked h.marked k, ?_, ?_, ?_, ?_, ?_⟩
    · rw [List.nodup_append]
      refine ⟨h.nodup, List.nodup_singleton k, ?_⟩
      rintro a ha b hb rfl
      rw [List.mem_singleton.mp hb] at ha
      exact hmem ha
    · intro j hj
      rcases List.mem_append.mp hj with hj | hj
      · exact h.lt j hj
      · rw [List.mem_singleton.mp hj]
        exact hlt
    · rw [if_neg (by simp)]
      simp
    · rw [List.pairwise_append]
      refine ⟨h.sorted, List.pairwise_singleton _ _, fun a ha b hb => ?_⟩
      rw [List.mem_singleton.mp hb]
      exact h.cross a ha k hlt hmem
    · intro a ha j hj hnot
      rw [List.mem_append, not_or] at hnot
      rcases List.mem_append.mp ha with ha | ha
      · exact h.cross a ha j hj hnot.1
      · have hle := hall j hj
        rw [hprio, h.marked, if_neg hnot.1] at hle
        rwa [List.mem_singleton.mp ha]
    · rw [List.head?_append_of_ne_nil _ hnil]
      exact h.first
    · rw [List.tail_append_of_ne_nil hnil]
      intro a ha
      rcases List.mem_append.mp ha with ha | ha
      · exact h.below a ha
      · rwa [List.mem_singleton.mp ha]

theorem run_selected (hi : i ≤ n) (h : run top n prio i = some s) : Selected top n prio i s := by
  induction i generalizing s with
  | zero =>
    cases h
    exact selected_zero
  | succ i ih =>
    obtain ⟨s0, hs0, hstep⟩ := Option.bind_eq_some_iff.mp h
    exact (ih (by omega) hs0).step hi hstep

/-- All entries have been selected. -/
theorem Selected.perm (h : Selected top n prio n s) : s.picked.Perm (List.range n) := by
  have hsub : s.picked.Subperm (List.range n) :=
    h.nodup.subperm fun k hk => List.mem_range.mpr (h.lt k hk)
  exact hsub.perm_of_length_le (Nat.le_of_eq (by rw [List.length_range, h.length]))

/-- **No entry is selected again** exactly when all keys are below the mark, or there is at
most one. -/
theorem run_isSome_iff :
    (run top n prio n).isSome ↔ n ≤ 1 ∨ ∀ j < n, prio j < top := by
  constructor
  · intro hsome
    obtain ⟨s, hs⟩ := Option.isSome_iff_exists.mp hsome
    have h := run_selected (Nat.le_refl n) hs
    by_cases hn : n ≤ 1
    · exact Or.inl hn
    refine Or.inr fun j hj => ?_
    have hmem : ∀ j < n, j ∈ s.picked := fun j hj => h.perm.mem_iff.mpr (List.mem_range.mpr hj)
    match hpicked : s.picked with
    | [] => exact absurd h.length (by rw [hpicked, List.length_nil]; omega)
    | [k] => exact absurd h.length (by rw [hpicked, List.length_singleton]; omega)
    | k :: k' :: ks =>
      have hbelow : ∀ a ∈ k' :: ks, prio a < top := fun a ha => h.below a (by rwa [hpicked])
      have hfirst : IsFirst prio n k := h.first k (by rw [hpicked]; rfl)
      have hk' : k' < n := h.lt k' (by rw [hpicked]; simp)
      have hj := hmem j hj
      rw [hpicked] at hj
      rcases List.mem_cons.mp hj with rfl | hj
      · exact (hfirst.2.1 k' hk').trans_lt (hbelow k' List.mem_cons_self)
      · exact hbelow j hj
  · intro hkeys
    have hall : ∀ i ≤ n, (run top n prio i).isSome := by
      intro i
      induction i with
      | zero => exact fun _ => rfl
      | succ i ih =>
        intro hi
        obtain ⟨s, hs⟩ := Option.isSome_iff_exists.mp (ih (by omega))
        have h := run_selected (by omega) hs
        have hnot : lowest s.prio n s.low ∉ s.picked := by
          intro hmem
          have hpos : 0 < i := by
            rw [← h.length]
            exact List.length_pos_of_mem hmem
          have hbelow := hkeys.resolve_left (by omega)
          -- an entry that has not been selected
          obtain ⟨j, hj, hfree⟩ : ∃ j < n, j ∉ s.picked := by
            by_contra hno
            have hsub : (List.range n).Subperm s.picked := by
              refine List.nodup_range.subperm fun j hj => ?_
              by_contra hfree
              exact hno ⟨j, List.mem_range.mp hj, hfree⟩
            have hle := hsub.length_le
            rw [List.length_range, h.length] at hle
            omega
          have hle := (lowest_spec s.prio n s.low).1 j hj
          rw [h.marked, if_pos hmem, h.marked, if_neg hfree] at hle
          exact absurd (hbelow j hj) (not_lt.mpr hle)
        rw [run, hs, Option.bind_some, Selection.step]
        simp only [if_neg hnot, Option.isSome_some]
    exact hall n (Nat.le_refl n)

end Selection
