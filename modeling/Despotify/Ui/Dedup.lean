import Despotify.Ui.Sort

/-!
# Removing duplicates from a track list

`tracklist_dedup` of `clients/despotify/sort.c`, and the two lines of `sess_search` that use it.
The loop takes out the next track and then goes on behind it, without another look.

    every other track of a run is kept                        (tracklistDedup_runs)
    the first of each run is kept ↔ no run has three tracks   (tracklistDedup_complete_iff)
-/

namespace Despotify.Ui.Sort

open Lib (CString Track)

variable (strcmp : CString → CString → Int)

/-! ## The code -/

/-- The list that is left, and `deletions`. -/
def tracklistDedup : List Track → Option (List Track × Int)
  | [] => some ([], 0)
  | [t] => (trackCompare strcmp (some t) none).map fun _ => ([t], 0)
  | t :: dupe :: list =>
    (trackCompare strcmp (some t) (some dupe)).bind fun rv =>
      if rv = 0 then (tracklistDedup list).map fun (ts, deletions) => (t :: ts, deletions + 1)
      else (tracklistDedup (dupe :: list)).map fun (ts, deletions) => (t :: ts, deletions)

/-- `tracks` and `num_tracks` of the playlist, from what the search has made of them. -/
def sessSearch (numTracks : Int) (tracks : List Track) : Option (List Track × Int) := do
  let tracks ← tracklistSort strcmp tracks
  let (tracks, deletions) ← tracklistDedup strcmp tracks
  some (tracks, numTracks - deletions)

/-! ## Runs of equal tracks -/

/-- `track_compare` finds no difference. -/
def Same (x y : Track) : Prop := trackCompare strcmp (some x) (some y) = some 0

instance : DecidableRel (Same strcmp) := fun _ _ => inferInstanceAs (Decidable (_ = _))

/-- `track_compare` finds a difference. -/
def Differ (x y : Track) : Prop := ∃ rv, trackCompare strcmp (some x) (some y) = some rv ∧ rv ≠ 0

/-- A list whose equal tracks are next to each other, by its runs. -/
structure EqualRuns (R : List (List Track)) : Prop where
  nonempty : ∀ run ∈ R, run ≠ []
  same : ∀ run ∈ R, run.Pairwise (Same strcmp)
  differ : R.Pairwise fun r s => ∀ x ∈ r, ∀ y ∈ s, Differ strcmp x y

def everyOther {α : Type} : List α → List α
  | [] => []
  | [x] => [x]
  | x :: _ :: rest => x :: everyOther rest

theorem everyOther_sublist {α : Type} (l : List α) : (everyOther l).Sublist l := by
  induction l using everyOther.induct with
  | case1 => exact List.Sublist.refl _
  | case2 x => exact List.Sublist.refl _
  | case3 x y rest ih => exact (ih.cons y).cons_cons x

theorem everyOther_of_short {α : Type} {l : List α} (h : l.length ≤ 2) :
    everyOther l = l.head?.toList := by
  match l, h with
  | [], _ | [x], _ | [x, y], _ => rfl

variable {strcmp}

theorem EqualRuns.tail {run : List Track} {R : List (List Track)}
    (h : EqualRuns strcmp (run :: R)) : EqualRuns strcmp R :=
  ⟨(List.forall_mem_cons.mp h.nonempty).2, (List.forall_mem_cons.mp h.same).2,
    (List.pairwise_cons.mp h.differ).2⟩

theorem EqualRuns.differ_flatten {run : List Track} {R : List (List Track)}
    (h : EqualRuns strcmp (run :: R)) : ∀ x ∈ run, ∀ y ∈ R.flatten, Differ strcmp x y := by
  intro x hx y hy
  obtain ⟨s, hs, hys⟩ := List.mem_flatten.mp hy
  exact (List.pairwise_cons.mp h.differ).1 s hs x hx y hys

theorem tracklistDedup_append {run rest ts : List Track} {n : Int}
    (hsame : run.Pairwise (Same strcmp)) (hdiff : ∀ x ∈ run, ∀ y ∈ rest, Differ strcmp x y)
    (hrest : tracklistDedup strcmp rest = some (ts, n)) :
    tracklistDedup strcmp (run ++ rest) =
      some (everyOther run ++ ts, run.length - (everyOther run).length + n) := by
  induction run using everyOther.induct with
  | case1 => simpa [everyOther] using hrest
  | case2 x =>
    cases rest with
    | nil =>
      cases hrest
      rfl
    | cons y rest =>
      obtain ⟨rv, hrv, hne⟩ := hdiff x List.mem_cons_self y List.mem_cons_self
      rw [List.cons_append, List.nil_append, tracklistDedup, hrv, Option.bind_some, if_neg hne,
        hrest]
      simp [everyOther]
  | case3 x y run ih =>
    rw [List.pairwise_cons, List.pairwise_cons] at hsame
    obtain ⟨hx, -, hrun⟩ := hsame
    have hxy : trackCompare strcmp (some x) (some y) = some 0 := hx y List.mem_cons_self
    have hrec := ih hrun fun z hz =>
      hdiff z (List.mem_cons_of_mem _ (List.mem_cons_of_mem _ hz))
    rw [List.cons_append, List.cons_append, tracklistDedup, hxy, Option.bind_some, if_pos rfl,
      hrec, everyOther]
    simp only [Option.map_some, List.length_cons, List.cons_append]
    congr 2
    omega

/-- **Of every run the loop keeps every other track.** -/
theorem tracklistDedup_runs {R : List (List Track)} (h : EqualRuns strcmp R) :
    tracklistDedup strcmp R.flatten = some ((R.map everyOther).flatten,
      (R.flatten.length : Int) - (R.map everyOther).flatten.length) := by
  induction R with
  | nil => rfl
  | cons run R ih =>
    have hrun := tracklistDedup_append (h.same run List.mem_cons_self) h.differ_flatten (ih h.tail)
    rw [List.flatten_cons, hrun, List.map_cons, List.flatten_cons, List.length_append,
      List.length_append]
    congr 2
    omega

/-! ## Completeness -/

/-- The first of every run is left, and the others are counted. -/
def Collapsed (strcmp : CString → CString → Int) (R : List (List Track)) : Prop :=
  ∃ deletions, tracklistDedup strcmp R.flatten = some (R.filterMap List.head?, deletions) ∧
    deletions + (R.filterMap List.head?).length = R.flatten.length

/-- `num_tracks` counts the list that is left, in which no two tracks are equal. -/
def Counted (strcmp : CString → CString → Int) (numTracks : Int) (tracks : List Track) : Prop :=
  ∃ ts n, sessSearch strcmp numTracks tracks = some (ts, n) ∧ n = ts.length ∧
    ts.Pairwise fun x y => ¬ Same strcmp x y

theorem everyOther_runs_of_short {R : List (List Track)} (hR : ∀ run ∈ R, run.length ≤ 2) :
    (R.map everyOther).flatten = R.filterMap List.head? := by
  induction R with
  | nil => rfl
  | cons run R ih =>
    obtain ⟨hrun, hrest⟩ := List.forall_mem_cons.mp hR
    rw [List.map_cons, List.flatten_cons, everyOther_of_short hrun, ih hrest]
    cases run <;> rfl

/-- A run of three leaves two tracks that are equal. -/
theorem short_of_pairwise {R : List (List Track)} (h : EqualRuns strcmp R)
    (hR : (R.map everyOther).flatten.Pairwise fun x y => ¬ Same strcmp x y) :
    ∀ run ∈ R, run.length ≤ 2 := by
  intro run hrun
  match run, hrun with
  | [], _ | [x], _ | [x, y], _ => simp
  | x :: y :: z :: rest, hrun =>
    have hsub : [x, z].Sublist (R.map everyOther).flatten := by
      refine List.Sublist.trans ?_ (List.sublist_flatten_of_mem (List.mem_map_of_mem hrun))
      refine List.Sublist.cons_cons x (List.singleton_sublist.mpr ?_)
      cases rest <;> simp [everyOther]
    have hxz : Same strcmp x z := (List.pairwise_cons.mp (h.same _ hrun)).1 z (by simp)
    exact absurd hxz (List.rel_of_pairwise_cons (hR.sublist hsub) List.mem_cons_self)

theorem pairwise_heads {R : List (List Track)} (h : EqualRuns strcmp R) :
    (R.filterMap List.head?).Pairwise fun x y => ¬ Same strcmp x y := by
  refine List.pairwise_filterMap.mpr (h.differ.imp ?_)
  intro r s hrs x hx y hy hsame
  obtain ⟨rv, hrv, hne⟩ := hrs x (List.mem_of_head? hx) y (List.mem_of_head? hy)
  rw [Same, hrv] at hsame
  exact hne (Option.some.inj hsame)

/-- **`tracklist_dedup` keeps the first of each run, and `sess_search` no two equal tracks,
exactly if no run has three tracks.** -/
theorem tracklistDedup_complete_iff {R : List (List Track)} (h : EqualRuns strcmp R) :
    (Collapsed strcmp R ↔ ∀ run ∈ R, run.length ≤ 2) ∧
      ∀ numTracks tracks, tracklistSort strcmp tracks = some R.flatten →
        (Counted strcmp numTracks tracks ↔
          (∀ run ∈ R, run.length ≤ 2) ∧ numTracks = tracks.length) := by
  have hdedup := tracklistDedup_runs h
  refine ⟨?_, ?_⟩
  · constructor
    · rintro ⟨deletions, hd, -⟩
      rw [hdedup] at hd
      have heq : (R.map everyOther).flatten = R.filterMap List.head? :=
        congrArg Prod.fst (Option.some.inj hd)
      refine short_of_pairwise h ?_
      rw [heq]
      exact pairwise_heads h
    · intro hR
      rw [everyOther_runs_of_short hR] at hdedup
      exact ⟨_, hdedup, Int.sub_add_cancel _ _⟩
  · intro numTracks tracks hsort
    have hlen : R.flatten.length = tracks.length := by
      rw [tracklistSort_eq] at hsort
      have := (Merging.perm_mergeRuns hsort).length_eq
      rwa [Merging.flatten_singletons] at this
    have hsess : sessSearch strcmp numTracks tracks = some ((R.map everyOther).flatten,
        numTracks - ((R.flatten.length : Int) - (R.map everyOther).flatten.length)) := by
      rw [sessSearch, hsort, Option.bind_eq_bind, Option.bind_some, hdedup]
      rfl
    constructor
    · rintro ⟨ts, n, hs, hn, hpair⟩
      rw [hsess] at hs
      cases hs
      exact ⟨short_of_pairwise h hpair, by omega⟩
    · rintro ⟨hR, hn⟩
      refine ⟨_, _, hsess, by omega, ?_⟩
      rw [everyOther_runs_of_short hR]
      exact pairwise_heads h

theorem equalRuns_trackOf {k : Nat} (hk : 0 < k) :
    EqualRuns byteDifference [List.replicate k (trackOf [97] [97])] := by
  refine ⟨?_, ?_, List.pairwise_singleton _ _⟩
  · rw [List.forall_mem_singleton]
    exact fun h => by simp at h; omega
  · rw [List.forall_mem_singleton, List.pairwise_replicate]
    exact .inr (by decide)

theorem tracklistSort_pair (t : Track) (ht : before byteDifference t t = some true) :
    tracklistSort byteDifference [t, t] = some [t, t] := by
  have hpairs : Merging.mergePairs (before byteDifference) [[t], [t]] = some [[t, t]] := by
    rw [Merging.mergePairs, Merging.merge, ht]
    simp [Merging.merge, Merging.mergePairs]
  rw [tracklistSort_eq]
  exact Merging.mergeRuns_eq hpairs

theorem tracklistDedup_complete_iff_pair :
    Collapsed byteDifference [[trackOf [97] [97], trackOf [97] [97]]] ∧
      Counted byteDifference 2 [trackOf [97] [97], trackOf [97] [97]] := by
  have h := tracklistDedup_complete_iff (equalRuns_trackOf (k := 2) (by decide))
  exact ⟨h.1.mpr (by simp), (h.2 2 _ (tracklistSort_pair _ (by decide))).mpr (by simp)⟩

/-- Of three equal tracks two are left. -/
theorem tracklistDedup_incomplete : ¬ ∀ strcmp, Conforms strcmp → ∀ R : List (List Track),
    EqualRuns strcmp R → Collapsed strcmp R := by
  intro h
  have hruns := equalRuns_trackOf (k := 3) (by decide)
  obtain ⟨deletions, hd, -⟩ := h byteDifference conforms_byteDifference _ hruns
  rw [tracklistDedup_runs hruns] at hd
  have hlist := congrArg List.length (congrArg Prod.fst (Option.some.inj hd))
  cases hlist

end Despotify.Ui.Sort
