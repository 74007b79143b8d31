import Mathlib.Data.List.Basic
import Mathlib.Order.Defs.LinearOrder
import Mathlib.Order.Lattice

/-!
# Merge sort from the bottom up, with a comparison that may be wrong

Runs are merged in pairs until one is left.  The comparison `cmp` stands for the order of a key
but need not agree with it, and may fail to give an answer (`none`).

    mergeRuns cmp rs is in order ↔ cmp agrees with the order on the pairs that the merge sort
                                   by the order compares             (mergeRuns_ordered_iff)
    then it is the stable sort                                       (sorted_stable)
    a pass over runs of length k leaves runs of length 2k            (Cut.mergePairs)

A wrong answer cannot be made up for: the two elements are the wrong way round from then on
(`Inverted`).
-/

namespace Merging

open scoped List

variable {α β : Type} [LinearOrder β]

/-! ## Algorithm -/

def merge (cmp : α → α → Option Bool) : List α → List α → Option (List α)
  | [], ys => some ys
  | x :: xs, [] => some (x :: xs)
  | x :: xs, y :: ys =>
    (cmp x y).bind fun le =>
      if le then (merge cmp xs (y :: ys)).map (x :: ·) else (merge cmp (x :: xs) ys).map (y :: ·)
termination_by xs ys => xs.length + ys.length

theorem merge_nil {cmp : α → α → Option Bool} (xs : List α) : merge cmp xs [] = some xs := by
  cases xs <;> rw [merge]

/-- One pass. -/
def mergePairs (cmp : α → α → Option Bool) : List (List α) → Option (List (List α))
  | a :: b :: rest =>
    (merge cmp a b).bind fun ab => (mergePairs cmp rest).map (ab :: ·)
  | rs => some rs

theorem length_mergePairs {cmp : α → α → Option Bool} {rs rs' : List (List α)}
    (h : mergePairs cmp rs = some rs') : rs'.length = (rs.length + 1) / 2 := by
  induction rs using mergePairs.induct generalizing rs' with
  | case1 a b rest ih =>
    rw [mergePairs] at h
    obtain ⟨ab, -, h⟩ := Option.bind_eq_some_iff.mp h
    obtain ⟨rest', hrest, rfl⟩ := Option.map_eq_some_iff.mp h
    have hlen := ih hrest
    simp only [List.length_cons]
    omega
  | case2 rs hne =>
    match rs, hne with
    | [], _ => cases h; simp
    | [a], _ => cases h; simp
    | a :: b :: rest, hne => exact (hne a b rest rfl).elim

/-- Passes until one has left at most one run. -/
def mergeRuns (cmp : α → α → Option Bool) (rs : List (List α)) : Option (List α) :=
  match _h : mergePairs cmp rs with
  | none => none
  | some rs' => if rs'.length ≤ 1 then some rs'.flatten else mergeRuns cmp rs'
termination_by rs.length
decreasing_by
  have hlen := length_mergePairs _h
  omega

/-! ## The sort by a key -/

variable (key : α → β)

/-- The order of the keys. -/
def le (x y : α) : Bool := decide (key x ≤ key y)

def pairs : List (List α) → List (List α)
  | a :: b :: rest => List.merge a b (le key) :: pairs rest
  | rs => rs

theorem length_pairs (rs : List (List α)) : (pairs key rs).length = (rs.length + 1) / 2 := by
  induction rs using pairs.induct with
  | case1 a b rest ih =>
    rw [pairs, List.length_cons, ih, List.length_cons, List.length_cons]
    omega
  | case2 rs hne =>
    match rs, hne with
    | [], _ => simp [pairs]
    | [a], _ => simp [pairs]
    | a :: b :: rest, hne => exact (hne a b rest rfl).elim

def sorted (rs : List (List α)) : List α :=
  if _h : (pairs key rs).length ≤ 1 then (pairs key rs).flatten else sorted (pairs key rs)
termination_by rs.length
decreasing_by
  have hlen := length_pairs key rs
  omega

/-- The pairs a merge compares. -/
def comparedMerge : List α → List α → List (α × α)
  | [], _ => []
  | _ :: _, [] => []
  | x :: xs, y :: ys =>
    (x, y) :: if le key x y then comparedMerge xs (y :: ys) else comparedMerge (x :: xs) ys
termination_by xs ys => xs.length + ys.length

def comparedPairs : List (List α) → List (α × α)
  | a :: b :: rest => comparedMerge key a b ++ comparedPairs rest
  | _ => []

/-- The pairs the sort compares. -/
def compared (rs : List (List α)) : List (α × α) :=
  comparedPairs key rs ++
    if _h : (pairs key rs).length ≤ 1 then [] else compared (pairs key rs)
termination_by rs.length
decreasing_by
  have hlen := length_pairs key rs
  omega

/-! ## What a merge keeps -/

theorem sublist_merge {cmp : α → α → Option Bool} {xs ys zs : List α}
    (h : merge cmp xs ys = some zs) : xs <+ zs ∧ ys <+ zs := by
  induction xs, ys using merge.induct generalizing zs with
  | case1 ys =>
    rw [merge] at h
    cases h
    exact ⟨List.nil_sublist _, List.Sublist.refl _⟩
  | case2 x xs =>
    rw [merge] at h
    cases h
    exact ⟨List.Sublist.refl _, List.nil_sublist _⟩
  | case3 x xs y ys ihl ihr =>
    rw [merge] at h
    obtain ⟨b, -, h⟩ := Option.bind_eq_some_iff.mp h
    cases b with
    | true =>
      obtain ⟨rest, hrest, rfl⟩ := Option.map_eq_some_iff.mp h
      obtain ⟨hx, hy⟩ := ihl hrest
      exact ⟨hx.cons_cons x, hy.cons x⟩
    | false =>
      obtain ⟨rest, hrest, rfl⟩ := Option.map_eq_some_iff.mp h
      obtain ⟨hx, hy⟩ := ihr hrest
      exact ⟨hx.cons y, hy.cons_cons y⟩

theorem perm_merge {cmp : α → α → Option Bool} {xs ys zs : List α}
    (h : merge cmp xs ys = some zs) : zs.Perm (xs ++ ys) := by
  induction xs, ys using merge.induct generalizing zs with
  | case1 ys =>
    rw [merge] at h
    cases h
    exact List.Perm.refl _
  | case2 x xs =>
    rw [merge] at h
    cases h
    rw [List.append_nil]
  | case3 x xs y ys ihl ihr =>
    rw [merge] at h
    obtain ⟨b, -, h⟩ := Option.bind_eq_some_iff.mp h
    cases b with
    | true =>
      obtain ⟨rest, hrest, rfl⟩ := Option.map_eq_some_iff.mp h
      exact (ihl hrest).cons x
    | false =>
      obtain ⟨rest, hrest, rfl⟩ := Option.map_eq_some_iff.mp h
      exact ((ihr hrest).cons y).trans List.perm_middle.symm

theorem perm_mergePairs {cmp : α → α → Option Bool} {rs rs' : List (List α)}
    (h : mergePairs cmp rs = some rs') : rs'.flatten.Perm rs.flatten := by
  induction rs using mergePairs.induct generalizing rs' with
  | case1 a b rest ih =>
    rw [mergePairs] at h
    obtain ⟨ab, hab, h⟩ := Option.bind_eq_some_iff.mp h
    obtain ⟨rest', hrest, rfl⟩ := Option.map_eq_some_iff.mp h
    simp only [List.flatten_cons, ← List.append_assoc]
    exact (perm_merge hab).append (ih hrest)
  | case2 rs hne =>
    rw [mergePairs] at h
    · cases h
      exact List.Perm.refl _
    · exact hne

theorem sublist_mergePairs {cmp : α → α → Option Bool} {rs rs' : List (List α)}
    (h : mergePairs cmp rs = some rs') {r : List α} (hr : r ∈ rs) : ∃ r' ∈ rs', r <+ r' := by
  induction rs using mergePairs.induct generalizing rs' with
  | case1 a b rest ih =>
    rw [mergePairs] at h
    obtain ⟨ab, hab, h⟩ := Option.bind_eq_some_iff.mp h
    obtain ⟨rest', hrest, rfl⟩ := Option.map_eq_some_iff.mp h
    obtain ⟨ha, hb⟩ := sublist_merge hab
    rcases List.mem_cons.mp hr with rfl | hr
    · exact ⟨ab, List.mem_cons_self, ha⟩
    · rcases List.mem_cons.mp hr with rfl | hr
      · exact ⟨ab, List.mem_cons_self, hb⟩
      · obtain ⟨r', hr', hsub⟩ := ih hrest hr
        exact ⟨r', List.mem_cons_of_mem _ hr', hsub⟩
  | case2 rs hne =>
    rw [mergePairs] at h
    · cases h
      exact ⟨r, hr, List.Sublist.refl _⟩
    · exact hne

theorem mergeRuns_eq {cmp : α → α → Option Bool} {rs rs' : List (List α)}
    (h : mergePairs cmp rs = some rs') :
    mergeRuns cmp rs = if rs'.length ≤ 1 then some rs'.flatten else mergeRuns cmp rs' := by
  rw [mergeRuns]
  split
  · rename_i h'
    rw [h] at h'
    cases h'
  · rename_i rs'' h'
    rw [h] at h'
    cases h'
    rfl

theorem mergeRuns_eq_none {cmp : α → α → Option Bool} {rs : List (List α)}
    (h : mergePairs cmp rs = none) : mergeRuns cmp rs = none := by
  rw [mergeRuns]
  split
  · rfl
  · rename_i rs'' h'
    rw [h] at h'
    cases h'

theorem mergeRuns_cases {cmp : α → α → Option Bool} {rs : List (List α)} {z : List α}
    (h : mergeRuns cmp rs = some z) : ∃ rs', mergePairs cmp rs = some rs' ∧
      (rs'.length ≤ 1 ∧ z = rs'.flatten ∨ 1 < rs'.length ∧ mergeRuns cmp rs' = some z) := by
  cases hp : mergePairs cmp rs with
  | none =>
    rw [mergeRuns_eq_none hp] at h
    cases h
  | some rs' =>
    rw [mergeRuns_eq hp] at h
    refine ⟨rs', rfl, ?_⟩
    by_cases hlen : rs'.length ≤ 1
    · rw [if_pos hlen] at h
      cases h
      exact .inl ⟨hlen, rfl⟩
    · rw [if_neg hlen] at h
      exact .inr ⟨by omega, h⟩

theorem perm_mergeRuns {cmp : α → α → Option Bool} {rs : List (List α)} {z : List α}
    (h : mergeRuns cmp rs = some z) : z.Perm rs.flatten := by
  induction hn : rs.length using Nat.strongRecOn generalizing rs with
  | ind n ih =>
    obtain ⟨rs', hp, ⟨-, rfl⟩ | ⟨hlen, h⟩⟩ := mergeRuns_cases h
    · exact perm_mergePairs hp
    · have hlen' := length_mergePairs hp
      exact (ih rs'.length (by omega) h rfl).trans (perm_mergePairs hp)

theorem sublist_mergeRuns {cmp : α → α → Option Bool} {rs : List (List α)} {z : List α}
    (h : mergeRuns cmp rs = some z) {r : List α} (hr : r ∈ rs) : r <+ z := by
  induction hn : rs.length using Nat.strongRecOn generalizing rs r with
  | ind n ih =>
    obtain ⟨rs', hp, hcase⟩ := mergeRuns_cases h
    obtain ⟨r', hr', hsub⟩ := sublist_mergePairs hp hr
    rcases hcase with ⟨-, rfl⟩ | ⟨hlen, h⟩
    · exact hsub.trans (List.sublist_flatten_of_mem hr')
    · have hlen' := length_mergePairs hp
      exact hsub.trans (ih rs'.length (by omega) h hr' rfl)

/-! ## A wrong answer stays -/

/-- Two elements the wrong way round. -/
def Inverted (zs : List α) : Prop := ∃ p q, [p, q] <+ zs ∧ ¬ key p ≤ key q

theorem Inverted.sublist {key : α → β} {zs zs' : List α} (h : Inverted key zs) (hs : zs <+ zs') :
    Inverted key zs' := by
  obtain ⟨p, q, hpq, hlt⟩ := h
  exact ⟨p, q, hpq.trans hs, hlt⟩

theorem Inverted.not_ordered {key : α → β} {zs : List α} (h : Inverted key zs) :
    ¬ zs.Pairwise fun p q => key p ≤ key q := by
  obtain ⟨p, q, hpq, hlt⟩ := h
  intro hz
  exact hlt (List.rel_of_pairwise_cons (hz.sublist hpq) List.mem_cons_self)

/-- `cmp` gives the answer that the keys give. -/
def Agrees (cmp : α → α → Option Bool) (pq : α × α) : Prop :=
  cmp pq.1 pq.2 = some (le key pq.1 pq.2)

variable {key}

theorem merge_of_agrees {cmp : α → α → Option Bool} {xs ys : List α}
    (h : ∀ pq ∈ comparedMerge key xs ys, Agrees key cmp pq) :
    merge cmp xs ys = some (List.merge xs ys (le key)) := by
  induction xs, ys using merge.induct with
  | case1 ys => rw [merge, List.nil_merge]
  | case2 x xs => rw [merge, List.merge_right]
  | case3 x xs y ys ihl ihr =>
    rw [comparedMerge, List.forall_mem_cons] at h
    obtain ⟨hxy, hrest⟩ := h
    rw [merge, show cmp x y = some (le key x y) from hxy, Option.bind_some, List.cons_merge_cons]
    by_cases hle : le key x y = true
    · rw [if_pos hle] at hrest
      rw [if_pos hle, if_pos hle, ihl hrest, Option.map_some]
    · rw [if_neg hle] at hrest
      rw [if_neg hle, if_neg hle, ihr hrest, Option.map_some]

section Tie

-- of two equal keys the first element goes first
variable {cmp : α → α → Option Bool} (tie : ∀ x y, key x = key y → cmp x y ≠ some false)
include tie

/-- **A merge goes by the keys, or leaves two elements the wrong way round.** -/
theorem merge_cases {xs ys zs : List α} (h : merge cmp xs ys = some zs) :
    Inverted key zs ∨
      zs = List.merge xs ys (le key) ∧ ∀ pq ∈ comparedMerge key xs ys, Agrees key cmp pq := by
  induction xs, ys using merge.induct generalizing zs with
  | case1 ys =>
    rw [merge] at h
    cases h
    rw [comparedMerge, List.nil_merge]
    exact .inr ⟨rfl, List.forall_mem_nil _⟩
  | case2 x xs =>
    rw [merge] at h
    cases h
    rw [comparedMerge, List.merge_right]
    exact .inr ⟨rfl, List.forall_mem_nil _⟩
  | case3 x xs y ys ihl ihr =>
    rw [merge] at h
    obtain ⟨b, hb, h⟩ := Option.bind_eq_some_iff.mp h
    rw [comparedMerge, List.cons_merge_cons, List.forall_mem_cons]
    cases b with
    | true =>
      obtain ⟨rest, hrest, rfl⟩ := Option.map_eq_some_iff.mp h
      by_cases hle : key x ≤ key y
      · have hkey : le key x y = true := decide_eq_true hle
        rw [if_pos hkey, if_pos hkey]
        rcases ihl hrest with hinv | ⟨rfl, hagree⟩
        · exact .inl (hinv.sublist (List.sublist_cons_self _ _))
        · exact .inr ⟨rfl, hb.trans (congrArg some hkey.symm), hagree⟩
      · have hy : [y] <+ rest := List.singleton_sublist.mpr
          ((sublist_merge hrest).2.subset List.mem_cons_self)
        exact .inl ⟨x, y, hy.cons_cons x, hle⟩
    | false =>
      obtain ⟨rest, hrest, rfl⟩ := Option.map_eq_some_iff.mp h
      by_cases hle : key x ≤ key y
      · have hlt : key x < key y := lt_of_le_of_ne hle fun heq => tie x y heq hb
        have hx : [x] <+ rest := List.singleton_sublist.mpr
          ((sublist_merge hrest).1.subset List.mem_cons_self)
        exact .inl ⟨y, x, hx.cons_cons y, not_le_of_gt hlt⟩
      · have hkey : ¬ le key x y = true := fun hd => hle (of_decide_eq_true hd)
        rw [if_neg hkey, if_neg hkey]
        rcases ihr hrest with hinv | ⟨rfl, hagree⟩
        · exact .inl (hinv.sublist (List.sublist_cons_self _ _))
        · exact .inr ⟨rfl, hb.trans (congrArg some (Bool.eq_false_iff.mpr hkey).symm),
            hagree⟩

theorem mergePairs_cases {rs rs' : List (List α)} (h : mergePairs cmp rs = some rs') :
    (∃ r ∈ rs', Inverted key r) ∨
      rs' = pairs key rs ∧ ∀ pq ∈ comparedPairs key rs, Agrees key cmp pq := by
  induction rs using mergePairs.induct generalizing rs' with
  | case1 a b rest ih =>
    rw [mergePairs] at h
    obtain ⟨ab, hab, h⟩ := Option.bind_eq_some_iff.mp h
    obtain ⟨rest', hrest, rfl⟩ := Option.map_eq_some_iff.mp h
    rcases merge_cases tie hab with hinv | ⟨rfl, hagree⟩
    · exact .inl ⟨ab, List.mem_cons_self, hinv⟩
    · rcases ih hrest with ⟨r, hr, hinv⟩ | ⟨rfl, hagrees⟩
      · exact .inl ⟨r, List.mem_cons_of_mem _ hr, hinv⟩
      · rw [pairs, comparedPairs]
        exact .inr ⟨rfl, List.forall_mem_append.mpr ⟨hagree, hagrees⟩⟩
  | case2 rs hne =>
    rw [mergePairs.eq_2 _ _ hne] at h
    cases h
    rw [pairs.eq_2 _ _ hne, comparedPairs.eq_2 _ _ hne]
    exact .inr ⟨rfl, List.forall_mem_nil _⟩

theorem mergeRuns_sorted_cases {rs : List (List α)} {z : List α} (h : mergeRuns cmp rs = some z) :
    Inverted key z ∨ z = sorted key rs ∧ ∀ pq ∈ compared key rs, Agrees key cmp pq := by
  induction hn : rs.length using Nat.strongRecOn generalizing rs with
  | ind n ih =>
    obtain ⟨rs', hp, hcase⟩ := mergeRuns_cases h
    rcases mergePairs_cases tie hp with ⟨r, hr, hinv⟩ | ⟨rfl, hagree⟩
    · rcases hcase with ⟨-, rfl⟩ | ⟨-, hrest⟩
      · exact .inl (hinv.sublist (List.sublist_flatten_of_mem hr))
      · exact .inl (hinv.sublist (sublist_mergeRuns hrest hr))
    · rw [sorted, compared, List.forall_mem_append]
      rcases hcase with ⟨hlen, rfl⟩ | ⟨hlen, hrest⟩
      · rw [dif_pos hlen, dif_pos hlen]
        exact .inr ⟨rfl, hagree, List.forall_mem_nil _⟩
      · have hlen' := length_mergePairs hp
        rw [dif_neg (by omega), dif_neg (by omega)]
        rcases ih (pairs key rs).length (by omega) hrest rfl with hinv | ⟨rfl, hagrees⟩
        · exact .inl hinv
        · exact .inr ⟨rfl, hagree, hagrees⟩

end Tie

theorem mergePairs_of_agrees {cmp : α → α → Option Bool} {rs : List (List α)}
    (h : ∀ pq ∈ comparedPairs key rs, Agrees key cmp pq) :
    mergePairs cmp rs = some (pairs key rs) := by
  induction rs using mergePairs.induct with
  | case1 a b rest ih =>
    rw [comparedPairs, List.forall_mem_append] at h
    rw [mergePairs, merge_of_agrees h.1, Option.bind_some, ih h.2, pairs, Option.map_some]
  | case2 rs hne => rw [mergePairs.eq_2 _ _ hne, pairs.eq_2 _ _ hne]

theorem mergeRuns_of_agrees {cmp : α → α → Option Bool} {rs : List (List α)}
    (h : ∀ pq ∈ compared key rs, Agrees key cmp pq) :
    mergeRuns cmp rs = some (sorted key rs) := by
  induction hn : rs.length using Nat.strongRecOn generalizing rs with
  | ind n ih =>
    rw [compared, List.forall_mem_append] at h
    rw [mergeRuns_eq (mergePairs_of_agrees h.1), sorted]
    by_cases hlen : (pairs key rs).length ≤ 1
    · rw [if_pos hlen, dif_pos hlen]
    · have hlen' := length_pairs key rs
      rw [dif_neg hlen] at h
      rw [if_neg hlen, dif_neg hlen]
      exact ih (pairs key rs).length (by omega) h.2 rfl

theorem perm_pairs (rs : List (List α)) : (pairs key rs).flatten.Perm rs.flatten := by
  have h : mergePairs (fun x y => some (le key x y)) rs = some (pairs key rs) :=
    mergePairs_of_agrees fun pq _ => rfl
  exact perm_mergePairs h

theorem mem_of_comparedMerge {xs ys : List α} {pq : α × α} (h : pq ∈ comparedMerge key xs ys) :
    pq.1 ∈ xs ∧ pq.2 ∈ ys := by
  induction xs, ys using merge.induct with
  | case1 ys => simp [comparedMerge] at h
  | case2 x xs => simp [comparedMerge] at h
  | case3 x xs y ys ihl ihr =>
    rw [comparedMerge] at h
    rcases List.mem_cons.mp h with rfl | h
    · exact ⟨List.mem_cons_self, List.mem_cons_self⟩
    · split at h
      · exact ⟨List.mem_cons_of_mem _ (ihl h).1, (ihl h).2⟩
      · exact ⟨(ihr h).1, List.mem_cons_of_mem _ (ihr h).2⟩

theorem mem_of_comparedPairs {rs : List (List α)} {pq : α × α} (h : pq ∈ comparedPairs key rs) :
    pq.1 ∈ rs.flatten ∧ pq.2 ∈ rs.flatten := by
  induction rs using mergePairs.induct with
  | case1 a b rest ih =>
    rw [comparedPairs] at h
    simp only [List.flatten_cons, List.mem_append]
    rcases List.mem_append.mp h with h | h
    · obtain ⟨h1, h2⟩ := mem_of_comparedMerge h
      exact ⟨.inl h1, .inr (.inl h2)⟩
    · obtain ⟨h1, h2⟩ := ih h
      exact ⟨.inr (.inr h1), .inr (.inr h2)⟩
  | case2 rs hne =>
    rw [comparedPairs.eq_2 _ _ hne] at h
    cases h

theorem mem_of_compared {rs : List (List α)} {pq : α × α} (h : pq ∈ compared key rs) :
    pq.1 ∈ rs.flatten ∧ pq.2 ∈ rs.flatten := by
  induction hn : rs.length using Nat.strongRecOn generalizing rs with
  | ind n ih =>
    rw [compared] at h
    rcases List.mem_append.mp h with h | h
    · exact mem_of_comparedPairs h
    · split at h
      · cases h
      · have hlen := length_pairs key rs
        obtain ⟨h1, h2⟩ := ih (pairs key rs).length (by omega) h rfl
        exact ⟨(perm_pairs rs).mem_iff.mp h1, (perm_pairs rs).mem_iff.mp h2⟩

/-! ## Stable sorting -/

/-- `x` has the key `k`. -/
def hasKey (key : α → β) (k : β) (x : α) : Bool := decide (key x = k)

/-- `r` is `l` in the order of the keys, elements of equal keys as they stood. -/
structure StableSort (key : α → β) (l r : List α) : Prop where
  perm : r.Perm l
  ordered : r.Pairwise fun p q => key p ≤ key q
  stable : ∀ k, r.filter (hasKey key k) = l.filter (hasKey key k)

theorem filter_merge {xs ys : List α} (hx : xs.Pairwise fun p q => key p ≤ key q)
    (k : β) : (List.merge xs ys (le key)).filter (hasKey key k) =
      xs.filter (hasKey key k) ++ ys.filter (hasKey key k) := by
  induction xs, ys using merge.induct with
  | case1 ys => rw [List.nil_merge, List.filter_nil, List.nil_append]
  | case2 x xs => rw [List.merge_right, List.filter_nil, List.append_nil]
  | case3 x xs y ys ihl ihr =>
    rw [List.cons_merge_cons]
    by_cases hle : key x ≤ key y
    · rw [if_pos (show le key x y = true from decide_eq_true hle), List.filter_cons,
        ihl (List.pairwise_cons.mp hx).2]
      by_cases hk : hasKey key k x = true
      · rw [if_pos hk, List.filter_cons_of_pos hk, List.cons_append]
      · rw [if_neg hk, List.filter_cons_of_neg hk]
    · rw [if_neg (show ¬ le key x y = true from fun hd => hle (of_decide_eq_true hd)),
        List.filter_cons, ihr hx]
      by_cases hk : hasKey key k y = true
      · -- nothing in the first run has the key of `y`, which is below them all
        have hnone : (x :: xs).filter (hasKey key k) = [] := by
          rw [List.filter_eq_nil_iff]
          intro a ha
          have hxa : key x ≤ key a := by
            rcases List.mem_cons.mp ha with rfl | ha
            · exact le_rfl
            · exact (List.pairwise_cons.mp hx).1 a ha
          have hya : key y < key a := lt_of_lt_of_le (lt_of_not_ge hle) hxa
          rw [of_decide_eq_true hk] at hya
          exact fun heq => ne_of_gt hya (of_decide_eq_true heq)
        rw [if_pos hk, hnone, List.nil_append, List.nil_append, List.filter_cons_of_pos hk]
      · rw [if_neg hk, List.filter_cons_of_neg hk]

theorem trans_le (a b c : α) (hab : le key a b = true) (hbc : le key b c = true) :
    le key a c = true :=
  decide_eq_true (le_trans (of_decide_eq_true hab) (of_decide_eq_true hbc))

theorem total_le (a b : α) : (le key a b || le key b a) = true := by
  rw [Bool.or_eq_true]
  exact (le_total (key a) (key b)).imp (fun h => decide_eq_true h) fun h => decide_eq_true h

theorem pairwise_merge {xs ys : List α} (hx : xs.Pairwise fun p q => key p ≤ key q)
    (hy : ys.Pairwise fun p q => key p ≤ key q) :
    (List.merge xs ys (le key)).Pairwise fun p q => key p ≤ key q := by
  have h := List.pairwise_merge trans_le total_le xs ys
    (hx.imp fun h => decide_eq_true h) (hy.imp fun h => decide_eq_true h)
  exact h.imp fun h => of_decide_eq_true h

theorem pairs_stable {rs : List (List α)} (hrs : ∀ r ∈ rs, r.Pairwise fun p q => key p ≤ key q) :
    (∀ r ∈ pairs key rs, r.Pairwise fun p q => key p ≤ key q) ∧
      ∀ k, (pairs key rs).flatten.filter (hasKey key k) =
        rs.flatten.filter (hasKey key k) := by
  induction rs using mergePairs.induct with
  | case1 a b rest ih =>
    rw [List.forall_mem_cons, List.forall_mem_cons] at hrs
    obtain ⟨ha, hb, hrest⟩ := hrs
    obtain ⟨hord, hfil⟩ := ih hrest
    rw [pairs]
    refine ⟨List.forall_mem_cons.mpr ⟨pairwise_merge ha hb, hord⟩, ?_⟩
    intro k
    rw [List.flatten_cons, List.filter_append, filter_merge ha, hfil, List.flatten_cons,
      List.flatten_cons, List.filter_append, List.filter_append, List.append_assoc]
  | case2 rs hne =>
    rw [pairs.eq_2 _ _ hne]
    exact ⟨hrs, fun k => rfl⟩

/-- **By the keys themselves the merge sort is a stable sort.** -/
theorem sorted_stable {rs : List (List α)}
    (hrs : ∀ r ∈ rs, r.Pairwise fun p q => key p ≤ key q) :
    StableSort key rs.flatten (sorted key rs) := by
  have hsome : mergeRuns (fun x y => some (le key x y)) rs = some (sorted key rs) :=
    mergeRuns_of_agrees fun pq _ => rfl
  suffices h : (sorted key rs).Pairwise (fun p q => key p ≤ key q) ∧
      ∀ k, (sorted key rs).filter (hasKey key k) = rs.flatten.filter (hasKey key k) from
    ⟨perm_mergeRuns hsome, h.1, h.2⟩
  clear hsome
  induction hn : rs.length using Nat.strongRecOn generalizing rs with
  | ind n ih =>
    obtain ⟨hord, hfil⟩ := pairs_stable hrs
    rw [sorted]
    by_cases hlen : (pairs key rs).length ≤ 1
    · rw [dif_pos hlen]
      refine ⟨?_, hfil⟩
      match pairs key rs, hlen, hord with
      | [], _, _ => exact List.Pairwise.nil
      | [r], _, hord =>
        rw [List.flatten_singleton]
        exact hord r List.mem_cons_self
    · have hlen' := length_pairs key rs
      rw [dif_neg hlen]
      obtain ⟨h1, h2⟩ := ih (pairs key rs).length (by omega) hord rfl
      exact ⟨h1, fun k => (h2 k).trans (hfil k)⟩

/-- **The merge sort gives the stable sort exactly if every answer it gets is that of the
keys.** -/
theorem mergeRuns_ordered_iff {cmp : α → α → Option Bool}
    (tie : ∀ x y, key x = key y → cmp x y ≠ some false) {rs : List (List α)}
    (hrs : ∀ r ∈ rs, r.Pairwise fun p q => key p ≤ key q) :
    (∃ z, mergeRuns cmp rs = some z ∧ StableSort key rs.flatten z) ↔
      ∀ pq ∈ compared key rs, Agrees key cmp pq := by
  constructor
  · rintro ⟨z, hz, hs⟩
    rcases mergeRuns_sorted_cases tie hz with hinv | ⟨-, hagree⟩
    · exact absurd hs.ordered hinv.not_ordered
    · exact hagree
  · intro h
    exact ⟨sorted key rs, mergeRuns_of_agrees h, sorted_stable hrs⟩

/-! ## Runs of one length -/

/-- Runs of length `k`, of which the last may be shorter. -/
def Cut (k : Nat) : List (List α) → Prop
  | [] => True
  | r :: rest => 0 < r.length ∧ r.length ≤ k ∧ (rest = [] ∨ r.length = k) ∧ Cut k rest

theorem flatten_singletons (l : List α) : (l.map fun x => [x]).flatten = l := by
  rw [← List.flatMap_def, List.flatMap_singleton']

theorem cut_singletons (l : List α) : Cut 1 (l.map fun x => [x]) := by
  induction l with
  | nil => trivial
  | cons x l ih => exact ⟨Nat.one_pos, Nat.le_refl 1, .inr rfl, ih⟩

theorem Cut.mergePairs {cmp : α → α → Option Bool} {k : Nat} {rs rs' : List (List α)}
    (hc : Cut k rs) (h : mergePairs cmp rs = some rs') : Cut (k * 2) rs' := by
  induction rs using Merging.mergePairs.induct generalizing rs' with
  | case1 a b rest ih =>
    rw [Merging.mergePairs] at h
    obtain ⟨ab, hab, h⟩ := Option.bind_eq_some_iff.mp h
    obtain ⟨rest', hrest, rfl⟩ := Option.map_eq_some_iff.mp h
    obtain ⟨ha0, hak, hafull, hb0, hbk, hbfull, hcrest⟩ := hc
    have hlen := (perm_merge hab).length_eq
    have ha : a.length = k := hafull.resolve_left (by simp)
    rw [List.length_append] at hlen
    refine ⟨by omega, by omega, ?_, ih hcrest hrest⟩
    rcases hbfull with rfl | hb
    · rw [Merging.mergePairs.eq_2 _ _ (by simp)] at hrest
      cases hrest
      exact .inl rfl
    · exact .inr (by omega)
  | case2 rs hne =>
    rw [Merging.mergePairs.eq_2 _ _ hne] at h
    cases h
    match rs, hne with
    | [], _ => trivial
    | [a], _ =>
      obtain ⟨ha0, hak, -, -⟩ := hc
      exact ⟨ha0, by omega, .inl rfl, trivial⟩
    | a :: b :: rest, hne => exact (hne a b rest rfl).elim

end Merging
